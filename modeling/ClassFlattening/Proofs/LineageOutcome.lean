import ClassFlattening.Proofs.LineageAgreement
import Mathlib.Data.List.Nodup

/-!
# What the line of a class decides

The members of a class's line are numbered: the class itself is number zero, and each next one is what
the parent reference of the one before leads to. Collecting the line keeps a stretch of it, the members
so far with no key twice, and goes on until the next member does not exist, repeats a key or exceeds the
limit. `LineOutcome` lists these three ends. They exclude one another, so each result of the collection
is decided by the line alone.
-/

namespace ClassFlattening

namespace Registry

/-- The class so many steps up the line of a class, which itself is zero steps up. -/
def lineMember? (registry : Registry) (c : Class) : Nat → Option Class
  | 0 => some c
  | n + 1 => (registry.lineMember? c n).bind registry.parentOf?

/-- The member so many steps up the line has the file and the name of one in front of it. -/
def RepeatsAt (registry : Registry) (c : Class) (n : Nat) : Prop :=
  ∃ member, registry.lineMember? c n = some member ∧
    ∃ m < n, ∃ earlier, registry.lineMember? c m = some earlier ∧ earlier.key = member.key

/-- Whether a member repeats a key can be computed. -/
instance (registry : Registry) (c : Class) (n : Nat) : Decidable (registry.RepeatsAt c n) :=
  decidable_of_iff
    (((registry.lineMember? c n).any fun member =>
      (List.range n).any fun m =>
        (registry.lineMember? c m).any fun earlier => earlier.key == member.key) = true)
    (by simp only [RepeatsAt, Option.any_eq_true, List.any_eq_true, List.mem_range, beq_iff_eq])

/-- Some classes are the first members above a class on its line, and no two of all these have the
same file and name. -/
structure IsStretch (registry : Registry) (c : Class) (line : List Class) : Prop where
  members : ∀ n ≤ line.length, registry.lineMember? c n = (c :: line)[n]?
  distinct : ((c :: line).map Class.key).Nodup

variable {registry : Registry} {c : Class} {line : List Class}

/-- Where the line has ended no member comes any more. -/
theorem lineMember?_eq_none_of_le {m n : Nat} (h : registry.lineMember? c m = none) (hle : m ≤ n) :
    registry.lineMember? c n = none := by
  induction hle with
  | refl => exact h
  | step _ ih => rw [lineMember?, ih, Option.bind_none]

/-- Where the line ends no member lies further up. -/
theorem le_of_lineMember?_eq_none {m n : Nat} {member : Class}
    (hlast : registry.lineMember? c (m + 1) = none)
    (hmember : registry.lineMember? c n = some member) : n ≤ m := by
  by_contra hlt
  rw [lineMember?_eq_none_of_le hlast (Nat.lt_of_not_le hlt)] at hmember
  cases hmember

/-- A class alone is a stretch of its line. -/
theorem isStretch_nil (registry : Registry) (c : Class) : registry.IsStretch c [] where
  members := by
    intro n hn
    rw [Nat.le_zero.1 hn]
    rfl
  distinct := List.nodup_singleton c.key

namespace IsStretch

/-- A stretch has a last member. -/
theorem exists_last (h : registry.IsStretch c line) :
    ∃ member, registry.lineMember? c line.length = some member := by
  rw [h.members line.length (Nat.le_refl _)]
  exact ⟨_, List.getElem?_eq_getElem (by simp)⟩

/-- A stretch goes on with the next member if its key is new. -/
theorem append (h : registry.IsStretch c line) {parent : Class}
    (hnext : registry.lineMember? c (line.length + 1) = some parent)
    (hnew : parent.key ∉ (c :: line).map Class.key) : registry.IsStretch c (line ++ [parent]) where
  members := by
    intro n hn
    rw [List.length_append, List.length_singleton] at hn
    rcases Nat.lt_or_ge n (line.length + 1) with hlt | hge
    · rw [h.members n (Nat.lt_succ_iff.1 hlt), ← List.cons_append,
        List.getElem?_append_left (by simpa using hlt)]
    · rw [Nat.le_antisymm hn hge, hnext]
      simp
  distinct := by
    rw [← List.cons_append, List.map_append]
    refine List.nodup_append.2 ⟨h.distinct, List.nodup_singleton _, ?_⟩
    intro key hkey other hother heq
    rw [List.map_singleton, List.mem_singleton] at hother
    exact hnew (hother ▸ heq ▸ hkey)

/-- A stretch repeats no key. -/
theorem not_repeatsAt (h : registry.IsStretch c line) {n : Nat} (hn : n ≤ line.length) :
    ¬ registry.RepeatsAt c n := by
  rintro ⟨member, hmember, m, hm, earlier, hearlier, hkey⟩
  rw [h.members n hn] at hmember
  rw [h.members m (Nat.le_trans (Nat.le_of_lt hm) hn)] at hearlier
  have hdistinct := List.nodup_iff_getElem?_ne_getElem?.1 h.distinct m n hm (by simp; omega)
  rw [List.getElem?_map, List.getElem?_map, hmember, hearlier] at hdistinct
  exact hdistinct (congrArg some hkey)

/-- The next member repeats a key if its key is among those of the stretch. -/
theorem repeatsAt_next (h : registry.IsStretch c line) {parent : Class}
    (hnext : registry.lineMember? c (line.length + 1) = some parent)
    (hold : parent.key ∈ (c :: line).map Class.key) : registry.RepeatsAt c (line.length + 1) := by
  obtain ⟨earlier, hearlier, hkey⟩ := List.mem_map.1 hold
  obtain ⟨m, hm⟩ := List.mem_iff_getElem?.1 hearlier
  have hlt : m < line.length + 1 := by simpa using (List.getElem?_eq_some_iff.1 hm).1
  exact ⟨parent, hnext, m, hlt, earlier, (h.members m (Nat.lt_succ_iff.1 hlt)).trans hm, hkey⟩

/-- Stretches of one length are the same. -/
theorem eq_of_length_eq {other : List Class} (h : registry.IsStretch c line)
    (hother : registry.IsStretch c other) (hlength : line.length = other.length) : line = other := by
  have hcons : c :: line = c :: other := by
    apply List.ext_getElem?
    intro n
    rcases Nat.lt_or_ge line.length n with hlt | hge
    · rw [List.getElem?_eq_none (by simp; omega), List.getElem?_eq_none (by simp; omega)]
    · rw [← h.members n hge, ← hother.members n (hlength ▸ hge)]
  exact (List.cons.inj hcons).2

/-- Two stretches behind which the line ends are of one length. -/
theorem length_eq_of_ends {other : List Class} (h : registry.IsStretch c line)
    (hother : registry.IsStretch c other) (hlast : registry.lineMember? c (line.length + 1) = none)
    (hlast' : registry.lineMember? c (other.length + 1) = none) : line.length = other.length := by
  obtain ⟨_, hmember⟩ := h.exists_last
  obtain ⟨_, hmember'⟩ := hother.exists_last
  exact Nat.le_antisymm (le_of_lineMember?_eq_none hlast' hmember)
    (le_of_lineMember?_eq_none hlast hmember')

end IsStretch

/-- The three ends that collecting a line can come to. -/
inductive LineOutcome (registry : Registry) (c : Class) : Except LineageFault (List Class) → Prop
  | ended {line : List Class} (stretch : registry.IsStretch c line)
      (fits : line.length ≤ lineageLimit)
      (last : registry.lineMember? c (line.length + 1) = none) :
      LineOutcome registry c (.ok line)
  | repeated {line : List Class} {parent : Class} (stretch : registry.IsStretch c line)
      (fits : line.length ≤ lineageLimit)
      (next : registry.lineMember? c (line.length + 1) = some parent)
      (old : parent.key ∈ (c :: line).map Class.key) :
      LineOutcome registry c (.error (.circular c.name parent.name))
  | exceeded {line : List Class} (stretch : registry.IsStretch c line)
      (full : line.length = lineageLimit + 1) :
      LineOutcome registry c (.error (.tooDeep c.name))

/-- One step from a stretch comes to an end or makes the stretch longer by one member. What is left to
show is how the collection goes on from there. -/
theorem ancestorsFrom_outcome_step {room : Nat} {found : List Class} {member : Class}
    (hstretch : registry.IsStretch c found)
    (hmember : registry.lineMember? c found.length = some member)
    (hfits : found.length ≤ lineageLimit)
    (hgo : ∀ parent, registry.IsStretch c (found ++ [parent]) → registry.LineOutcome c
      (match room with
      | 0 => .error (.tooDeep c.name)
      | room + 1 => registry.ancestorsFrom c room (found ++ [parent]) parent)) :
    registry.LineOutcome c (registry.ancestorsFrom c room found member) := by
  have hnext : registry.lineMember? c (found.length + 1) = registry.parentOf? member := by
    rw [lineMember?, hmember, Option.bind_some]
  rw [ancestorsFrom_step]
  cases hparent : registry.parentOf? member with
  | none => exact .ended hstretch hfits (hnext.trans hparent)
  | some parent =>
    dsimp only
    split
    · next hold => exact .repeated hstretch hfits (hnext.trans hparent) hold
    · next hnew =>
      have hlonger := hgo parent (hstretch.append (hnext.trans hparent) hnew)
      cases room with
      | zero => exact hlonger
      | succ room => exact hlonger

/-- From any stretch on, collecting the line comes to one of the ends. -/
theorem ancestorsFrom_outcome {room : Nat} {found : List Class} {member : Class}
    (hstretch : registry.IsStretch c found)
    (hmember : registry.lineMember? c found.length = some member)
    (hroom : found.length + room = lineageLimit) :
    registry.LineOutcome c (registry.ancestorsFrom c room found member) := by
  induction room generalizing found member with
  | zero =>
    apply ancestorsFrom_outcome_step hstretch hmember (Nat.le_of_eq hroom)
    intro parent hlonger
    refine .exceeded hlonger ?_
    rw [List.length_append, List.length_singleton, ← hroom, Nat.add_zero]
  | succ room ih =>
    apply ancestorsFrom_outcome_step hstretch hmember (by omega)
    intro parent hlonger
    apply ih hlonger
    · rw [hlonger.members _ (Nat.le_refl _)]
      simp
    · rw [List.length_append, List.length_singleton]
      omega

/-- Collecting the line of a class comes to one of the ends. -/
theorem ancestors_outcome (registry : Registry) (c : Class) :
    registry.LineOutcome c (registry.ancestors c) :=
  ancestorsFrom_outcome (isStretch_nil registry c) rfl (Nat.zero_add _)

/-- The line is collected exactly when it ends within the limit, and then it is the stretch that was
collected. -/
theorem ancestors_eq_ok_iff (registry : Registry) (c : Class) (line : List Class) :
    registry.ancestors c = .ok line ↔
      registry.IsStretch c line ∧ line.length ≤ lineageLimit ∧
        registry.lineMember? c (line.length + 1) = none := by
  have houtcome := registry.ancestors_outcome c
  constructor
  · intro h
    rw [h] at houtcome
    cases houtcome with
    | ended stretch fits last => exact ⟨stretch, fits, last⟩
  · rintro ⟨hstretch, hfits, hlast⟩
    generalize registry.ancestors c = result at houtcome ⊢
    cases houtcome with
    | ended stretch _ last =>
      rw [stretch.eq_of_length_eq hstretch (stretch.length_eq_of_ends hstretch last hlast)]
    | repeated stretch _ next old =>
      exact absurd (stretch.repeatsAt_next next old)
        (hstretch.not_repeatsAt (le_of_lineMember?_eq_none hlast next))
    | exceeded stretch full =>
      obtain ⟨member, hmember⟩ := stretch.exists_last
      have := le_of_lineMember?_eq_none hlast hmember
      omega

/-- Collecting the line reports a circle exactly when some member within the limit repeats a key; the
first such member is named. -/
theorem ancestors_eq_circular_iff (registry : Registry) (c : Class) (name reached : Text) :
    registry.ancestors c = .error (.circular name reached) ↔
      name = c.name ∧ ∃ n ≤ lineageLimit + 1, registry.RepeatsAt c n ∧
        (∀ m < n, ¬ registry.RepeatsAt c m) ∧
        (registry.lineMember? c n).map Class.name = some reached := by
  have houtcome := registry.ancestors_outcome c
  constructor
  · intro h
    rw [h] at houtcome
    cases houtcome with
    | repeated stretch fits next old =>
      refine ⟨rfl, _, Nat.succ_le_succ fits, stretch.repeatsAt_next next old, ?_, by simp [next]⟩
      intro m hm
      exact stretch.not_repeatsAt (Nat.lt_succ_iff.1 hm)
  · rintro ⟨rfl, n, hn, hrepeats, hfirst, hreached⟩
    generalize registry.ancestors c = result at houtcome ⊢
    cases houtcome with
    | ended stretch _ last =>
      have ⟨_, hmember, _⟩ := hrepeats
      exact absurd hrepeats (stretch.not_repeatsAt (le_of_lineMember?_eq_none last hmember))
    | @repeated line parent stretch _ next old =>
      have hle : n ≤ line.length + 1 := by
        by_contra hlt
        exact hfirst _ (Nat.lt_of_not_le hlt) (stretch.repeatsAt_next next old)
      have hge : line.length < n := by
        by_contra hlt
        exact stretch.not_repeatsAt (Nat.le_of_not_lt hlt) hrepeats
      rw [Nat.le_antisymm hle hge, next] at hreached
      rw [Option.some.inj hreached]
    | exceeded stretch full => exact absurd hrepeats (stretch.not_repeatsAt (full ▸ hn))

/-- Collecting the line reports that it is too long exactly when one member more than the limit exists
and none repeats a key. -/
theorem ancestors_eq_tooDeep_iff (registry : Registry) (c : Class) (name : Text) :
    registry.ancestors c = .error (.tooDeep name) ↔
      name = c.name ∧ ∃ line, registry.IsStretch c line ∧ line.length = lineageLimit + 1 := by
  have houtcome := registry.ancestors_outcome c
  constructor
  · intro h
    rw [h] at houtcome
    cases houtcome with
    | exceeded stretch full => exact ⟨rfl, _, stretch, full⟩
  · rintro ⟨rfl, long, hstretch, hlength⟩
    generalize registry.ancestors c = result at houtcome ⊢
    cases houtcome with
    | ended stretch fits last =>
      obtain ⟨member, hmember⟩ := hstretch.exists_last
      have := le_of_lineMember?_eq_none last hmember
      omega
    | repeated stretch fits next old =>
      refine absurd (stretch.repeatsAt_next next old) (hstretch.not_repeatsAt ?_)
      rw [hlength]
      exact Nat.succ_le_succ fits
    | exceeded => rfl

/-- A line that ends within the limit and repeats no key is collected, whatever its last reference
says. -/
theorem exists_ancestors_of_ends {n : Nat} (hn : n ≤ lineageLimit)
    (hlast : registry.lineMember? c (n + 1) = none) (hnew : ∀ m ≤ n, ¬ registry.RepeatsAt c m) :
    ∃ line, registry.ancestors c = .ok line := by
  have houtcome := registry.ancestors_outcome c
  generalize registry.ancestors c = result at houtcome ⊢
  cases houtcome with
  | ended => exact ⟨_, rfl⟩
  | repeated stretch _ next old =>
    exact absurd (stretch.repeatsAt_next next old) (hnew _ (le_of_lineMember?_eq_none hlast next))
  | exceeded stretch full =>
    obtain ⟨member, hmember⟩ := stretch.exists_last
    have := le_of_lineMember?_eq_none hlast hmember
    omega

/-- The line of a class decides what collecting it gives. Its members are `c` itself and what parent
references lead to, as long as they lead somewhere. If it ends within the limit and no two members have
the same file and name, the members above `c` are collected; if some member up to one more than the
limit repeats file and name, the first such member is reported; otherwise the line is too long. A whole
registry passes the check exactly when the first case holds for each of its classes. A reference that
leads nowhere ends a line and is no fault. -/
theorem ancestors_decided_by_line (registry : Registry) (c : Class) :
    (∀ line, registry.ancestors c = .ok line ↔
        registry.IsStretch c line ∧ line.length ≤ lineageLimit ∧
          registry.lineMember? c (line.length + 1) = none) ∧
      (∀ name reached, registry.ancestors c = .error (.circular name reached) ↔
        name = c.name ∧ ∃ n ≤ lineageLimit + 1, registry.RepeatsAt c n ∧
          (∀ m < n, ¬ registry.RepeatsAt c m) ∧
          (registry.lineMember? c n).map Class.name = some reached) ∧
      (∀ name, registry.ancestors c = .error (.tooDeep name) ↔
        name = c.name ∧ ∃ line, registry.IsStretch c line ∧ line.length = lineageLimit + 1) ∧
      (registry.validate = .ok () ↔
        ∀ d ∈ registry.classes, ∃ line, registry.IsStretch d line ∧ line.length ≤ lineageLimit ∧
          registry.lineMember? d (line.length + 1) = none) ∧
      (∀ n ≤ lineageLimit, registry.lineMember? c (n + 1) = none →
        (∀ m ≤ n, ¬ registry.RepeatsAt c m) → ∃ line, registry.ancestors c = .ok line) := by
  refine ⟨registry.ancestors_eq_ok_iff c, registry.ancestors_eq_circular_iff c,
    registry.ancestors_eq_tooDeep_iff c, ?_, fun n hn hlast hnew =>
      exists_ancestors_of_ends hn hlast hnew⟩
  rw [validate_eq_ok_iff]
  simp only [ancestors_eq_ok_iff]

/-- A class below two that are each other's parent. -/
def belowLoop : Class :=
  { name := "Child".toList, parent := some "First".toList, file := "a".toList }

/-- A class whose parent is declared nowhere. -/
def orphan : Class :=
  { name := "Orphan".toList, parent := some "gone.Base".toList, file := "a".toList }

/-- A file with a line that runs into a loop and one that leads nowhere. -/
def loopAndOrphan : Registry where
  files := [{
    path := "a".toList
    classes := [
      belowLoop, orphan,
      { name := "First".toList, parent := some "Second".toList, file := "a".toList },
      { name := "Second".toList, parent := some "First".toList, file := "a".toList }] }]

/-- The third step up is the first that repeats a class, which is not the class at the bottom; where
the parent is declared nowhere the line has ended. -/
theorem ancestors_decided_by_line_loopAndOrphan :
    loopAndOrphan.ancestors belowLoop = .error (.circular "Child".toList "First".toList) ∧
      ∃ line, loopAndOrphan.ancestors orphan = .ok line := by
  have hloop := (ancestors_decided_by_line loopAndOrphan belowLoop).2.1
  have hends := (ancestors_decided_by_line loopAndOrphan orphan).2.2.2.2
  constructor
  · exact (hloop _ _).2 ⟨rfl, 3, by decide, by decide, by decide, by decide⟩
  · exact hends 0 (by decide) (by decide) (by decide)

end Registry

end ClassFlattening
