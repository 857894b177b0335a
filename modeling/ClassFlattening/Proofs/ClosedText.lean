import ClassFlattening.Bracket

/-!
# Texts that are read as code to their end

A text is closed if it is read from code to code, with no literal left open at its end and no comment
or line of a multiline literal in it. What a closed text is read as does not depend on what stands
behind it, so a search of the code passes it as a whole: it only has to be followed through the code of
the text. Two texts are apart if no two characters that make the rest of a line no code meet between
them; all of this is about texts that are put together like that.
-/

namespace ClassFlattening

namespace Mode

/-- The mode behind a text that is read from a mode on, or none if a comment or a line of a multiline
literal starts in the text. -/
def endOf : Mode → Text → Option Mode
  | mode, [] => some mode
  | mode, c :: rest =>
    if (mode.step c rest).2 = line then none else endOf (mode.step c rest).2 rest

@[simp] theorem endOf_nil (mode : Mode) : mode.endOf [] = some mode := rfl

@[simp] theorem codeOf_nil (mode : Mode) : mode.codeOf [] = [] := by
  cases mode <;> rfl

/-- One step of reading the code. -/
theorem codeOf_cons (mode : Mode) (c : Char) (rest : Text) :
    mode.codeOf (c :: rest) =
      if (mode.step c rest).1 then c :: (mode.step c rest).2.codeOf rest
      else (mode.step c rest).2.codeOf rest := by
  cases mode <;> rfl

end Mode

namespace Text

/-- No two characters that make the rest of a line no code meet between two texts. -/
def Apart (s t : Text) : Prop := ∀ c ∈ s.getLast?, isLineStart c = true → t.head? ≠ some c

/-- A text is closed: it is code to its end. -/
def IsClosed (t : Text) : Prop := Mode.code.endOf t = some .code

instance (t : Text) : Decidable t.IsClosed := inferInstanceAs (Decidable (_ = _))

/-- The code of a text. -/
def code (t : Text) : Text := Mode.code.codeOf t

section Apart

variable {s t : Text} {c : Char}

theorem Apart.tail (h : Apart (c :: s) t) : Apart s t := by
  intro d hd
  apply h d
  rw [List.getLast?_cons, Option.mem_def, Option.some.injEq]
  rw [Option.mem_def] at hd
  rw [hd]
  rfl

/-- A text is apart from one that does not start with a slash or a backslash. -/
theorem apart_of_head (h : ∀ d ∈ t.head?, isLineStart d = false) : Apart s t := by
  intro d _ hd hhead
  rw [h d hhead] at hd
  cases hd

/-- A text that does not end with a slash or a backslash is apart from every text. -/
theorem apart_of_last (h : ∀ d ∈ s.getLast?, isLineStart d = false) : Apart s t := by
  intro d hd hline
  rw [h d hd] at hline
  cases hline

/-- A text is read alike in front of every text that it is apart from. -/
theorem step_append (mode : Mode) (h : Apart (c :: s) t) : mode.step c (s ++ t) = mode.step c s := by
  have hdoubled : (isLineStart c && isDoubled c (s ++ t)) = (isLineStart c && isDoubled c s) := by
    cases s with
    | cons d s => rfl
    | nil =>
      cases hline : isLineStart c with
      | false => rfl
      | true =>
        have hhead := h c rfl hline
        rw [List.nil_append, isDoubled, isDoubled, Bool.true_and, Bool.true_and]
        simp [hhead]
  cases mode with
  | code => simp only [Mode.step, Mode.read, hdoubled]
  | quoted quote => rfl
  | escaped quote => rfl
  | line => rfl

/-- The mode behind two texts that are apart. -/
theorem endOf_append (mode : Mode) (h : Apart s t) :
    mode.endOf (s ++ t) = (mode.endOf s).bind fun next => next.endOf t := by
  induction s generalizing mode with
  | nil => rfl
  | cons c s ih =>
    rw [List.cons_append, Mode.endOf, Mode.endOf, step_append mode h]
    split
    · rfl
    · exact ih _ h.tail

/-- The code of two texts that are apart. -/
theorem codeOf_append {mode next : Mode} (h : Apart s t) (hend : mode.endOf s = some next) :
    mode.codeOf (s ++ t) = mode.codeOf s ++ next.codeOf t := by
  induction s generalizing mode with
  | nil =>
    cases hend
    simp
  | cons c s ih =>
    rw [Mode.endOf] at hend
    split at hend
    · cases hend
    · rw [List.cons_append, Mode.codeOf_cons, Mode.codeOf_cons, step_append mode h, ih h.tail hend]
      split
      · rfl
      · rfl

/-- Closed texts that are apart are closed together. -/
theorem IsClosed.append (hs : s.IsClosed) (ht : t.IsClosed) (h : Apart s t) : (s ++ t).IsClosed := by
  rw [IsClosed, endOf_append _ h, hs]
  exact ht

/-- The code of closed texts that are apart is their code together. -/
theorem IsClosed.code_append (hs : s.IsClosed) (h : Apart s t) : (s ++ t).code = s.code ++ t.code :=
  codeOf_append h hs

end Apart

/-- The state of a search behind code that it passes, or none if it ends in it. -/
def passAll {σ : Type} (verdict : σ → Char → Verdict σ) : σ → Text → Option σ
  | state, [] => some state
  | state, c :: rest =>
    match verdict state c with
    | .pass next => passAll verdict next rest
    | _ => none

section Search

variable {σ : Type} {verdict : σ → Char → Verdict σ} {s t : Text} {state after : σ}

/-- A search passes two pieces of code one after the other. -/
theorem passAll_append (h : passAll verdict state s = some after) :
    passAll verdict state (s ++ t) = passAll verdict after t := by
  induction s generalizing state with
  | nil =>
    cases h
    rfl
  | cons c s ih =>
    rw [passAll] at h
    rw [List.cons_append, passAll]
    cases hverdict : verdict state c with
    | pass next =>
      rw [hverdict] at h
      exact ih h
    | stop => simp [hverdict] at h
    | fail => simp [hverdict] at h

/-- A search of the code counts a text whose code it passes. -/
theorem passedInCode_append {mode next : Mode} {passed : Nat} (h : Apart s t)
    (hend : mode.endOf s = some next) (hpass : passAll verdict state (mode.codeOf s) = some after) :
    passedInCode verdict mode state passed (s ++ t) =
      passedInCode verdict next after (passed + s.length) t := by
  induction s generalizing mode state passed with
  | nil =>
    cases hend
    rw [Mode.codeOf_nil] at hpass
    cases hpass
    rfl
  | cons c s ih =>
    rw [Mode.endOf] at hend
    split at hend
    · cases hend
    · rw [Mode.codeOf_cons] at hpass
      rw [List.cons_append, passedInCode, step_append mode h, List.length_cons, Nat.add_comm s.length,
        ← Nat.add_assoc]
      split at hpass
      · next hcode =>
        rw [passAll] at hpass
        cases hverdict : verdict state c with
        | pass state' =>
          rw [hverdict] at hpass
          simp only [hcode, if_true]
          exact ih h.tail hend hpass
        | stop => simp [hverdict] at hpass
        | fail => simp [hverdict] at hpass
      · next hcode =>
        simp only [hcode, Bool.false_eq_true, if_false]
        exact ih h.tail hend hpass

/-- A search of the code passes a closed text. -/
theorem cutInCode_append (hs : s.IsClosed) (h : Apart s t)
    (hpass : passAll verdict state s.code = some after) :
    cutInCode verdict state (s ++ t) =
      (cutInCode verdict after t).map fun cut => ⟨s ++ cut.before, cut.after⟩ := by
  rw [cutInCode, cutInCode, passedInCode_append h hs hpass, passedInCode_eq_passedWhere,
    passedWhere_eq_map, ← passedInCode_eq_passedWhere, Option.map_map, Option.map_map]
  congr 1
  funext passed
  simp [List.take_append, List.drop_append, List.take_of_length_le]

/-- A search of the code stops behind a closed text that it passes, at a character of the code. -/
theorem cutInCode_stop {c : Char} (hs : s.IsClosed) (hquote : isQuote c = false)
    (hline : isLineStart c = false) (hpass : passAll verdict state s.code = some after)
    (hstop : verdict after c = .stop) (rest : Text) :
    cutInCode verdict state (s ++ c :: rest) = some ⟨s, c :: rest⟩ := by
  have hapart : Apart s (c :: rest) := by
    apply apart_of_head
    intro d hd
    cases hd
    exact hline
  rw [cutInCode_append hs hapart hpass, cutInCode, passedInCode]
  simp [Mode.step, Mode.read, hquote, hline, hstop]

/-- A search of the code finds nothing in a closed text that it passes. -/
theorem cutInCode_eq_none (hs : s.IsClosed) (hpass : passAll verdict state s.code = some after) :
    cutInCode verdict state s = none := by
  have hapart : Apart s [] := apart_of_head (by simp)
  have h := cutInCode_append hs hapart hpass
  rw [List.append_nil] at h
  rw [h]
  rfl

end Search

end Text

end ClassFlattening
