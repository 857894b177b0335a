/-!
# Steps that may fail, one after the other

What follows a step that failed is not done, so a computation succeeds just when each of its steps does.
A list of checks stops at the first one that fails: the last two lemmas say which runs succeed and what
a failing run tells about the checks in front of the one that failed.
-/

namespace ClassFlattening

variable {ε α β : Type}

/-- Two steps succeed exactly when the first does and the second does on what the first gives. -/
theorem bind_eq_ok_iff {x : Except ε α} {f : α → Except ε β} {b : β} :
    x >>= f = .ok b ↔ ∃ a, x = .ok a ∧ f a = .ok b := by
  cases x with
  | error e => simp [bind, Except.bind]
  | ok a => simp [bind, Except.bind]

/-- Two steps fail exactly when the first does or the second does on what the first gives. -/
theorem bind_eq_error_iff {x : Except ε α} {f : α → Except ε β} {e : ε} :
    x >>= f = .error e ↔ x = .error e ∨ ∃ a, x = .ok a ∧ f a = .error e := by
  cases x with
  | error other => simp [bind, Except.bind]
  | ok a => simp [bind, Except.bind]

/-- A result that is worked on further comes from a success. -/
theorem map_eq_ok_iff {x : Except ε α} {f : α → β} {b : β} :
    x.map f = .ok b ↔ ∃ a, x = .ok a ∧ b = f a := by
  cases x with
  | error e => simp [Except.map]
  | ok a => simp [Except.map, eq_comm]

/-- Checks succeed exactly when each of them does. -/
theorem forM_eq_ok_iff (check : α → Except ε Unit) (xs : List α) :
    xs.forM check = .ok () ↔ ∀ x ∈ xs, check x = .ok () := by
  induction xs with
  | nil => simp [pure, Except.pure]
  | cons x rest ih =>
    change (check x >>= fun _ => rest.forM check) = .ok () ↔ _
    cases hx : check x with
    | error e => simp [bind, Except.bind, hx]
    | ok _ =>
      change rest.forM check = .ok () ↔ _
      rw [ih]
      simp [hx]

/-- Checks fail with what the first failing one says. -/
theorem forM_eq_error_iff (check : α → Except ε Unit) (xs : List α) (e : ε) :
    xs.forM check = .error e ↔
      ∃ front x rest, xs = front ++ x :: rest ∧ (∀ y ∈ front, check y = .ok ()) ∧
        check x = .error e := by
  induction xs with
  | nil => simp [pure, Except.pure]
  | cons x tail ih =>
    change (check x >>= fun _ => tail.forM check) = .error e ↔ _
    cases hx : check x with
    | error other =>
      constructor
      · intro h
        exact ⟨[], x, tail, rfl, by simp, hx.trans h⟩
      · rintro ⟨front, y, rest, hsplit, hfront, hy⟩
        cases front with
        | nil =>
          obtain ⟨rfl, -⟩ := List.cons.inj hsplit
          exact hx.symm.trans hy
        | cons z front =>
          obtain ⟨rfl, -⟩ := List.cons.inj hsplit
          simp [hx] at hfront
    | ok _ =>
      change tail.forM check = .error e ↔ _
      rw [ih]
      constructor
      · rintro ⟨front, y, rest, rfl, hfront, hy⟩
        refine ⟨x :: front, y, rest, rfl, ?_, hy⟩
        simpa [hx] using hfront
      · rintro ⟨front, y, rest, hsplit, hfront, hy⟩
        cases front with
        | nil =>
          obtain ⟨rfl, -⟩ := List.cons.inj hsplit
          simp [hx] at hy
        | cons z front =>
          obtain ⟨rfl, rfl⟩ := List.cons.inj hsplit
          exact ⟨front, y, rest, rfl, fun w hw => hfront w (List.mem_cons_of_mem x hw), hy⟩

end ClassFlattening
