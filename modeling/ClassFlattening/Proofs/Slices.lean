import ClassFlattening.Bracket

/-!
# Offsets and slices

An offset counts bytes, so it may lie behind the end of a text or inside a character. `cutAt?` succeeds
just for the sizes of the fronts of a text, and `between?` gives a slice just when both of its ends are
such sizes and stand in order. A text in three parts has its middle part as a slice.
-/

namespace ClassFlattening

namespace Text

/-- The text between two offsets, unless one of them lies behind the end or inside a character, or the
second lies in front of the first. -/
def between? (t : Text) (start stop : Nat) : Option Text := do
  let ended ← t.cutAt? stop
  let started ← ended.before.cutAt? start
  return started.after

/-- The offset of the bracket that closes the one at an offset. -/
def matchingOffset? (source : Text) (offset : Nat) (opening closing : Char) : Option Nat :=
  (source.cutAt? offset).bind fun cut =>
    (cut.after.cutAtMatching? opening closing).map fun found => cut.before.size + found.before.size

/-- A text is cut at the size of its first part into its two parts. -/
theorem cutAt?_go_append (s t passed : Text) :
    cutAt?.go s.size passed (s ++ t) = some ⟨passed.reverse ++ s, t⟩ := by
  induction s generalizing passed with
  | nil =>
    rw [size_nil, List.nil_append, List.append_nil]
    cases t with
    | nil => rfl
    | cons c rest => rw [cutAt?.go, if_pos rfl]
  | cons c rest ih =>
    have hpos := c.utf8Size_pos
    rw [size_cons, List.cons_append, cutAt?.go, if_neg (by omega), if_pos (Nat.le_add_right _ _),
      Nat.add_sub_cancel_left, ih, List.reverse_cons, List.append_assoc, List.singleton_append]

/-- A text is cut at the size of its first part into its two parts. -/
theorem cutAt?_append (s t : Text) : (s ++ t).cutAt? s.size = some ⟨s, t⟩ :=
  cutAt?_go_append s t []

/-- The offset of a closing bracket is counted from the start of the source, also if the search starts
further behind. -/
theorem matchingOffset?_append (front t : Text) (opening closing : Char) :
    (front ++ t).matchingOffset? front.size opening closing =
      (t.cutAtMatching? opening closing).map fun found => front.size + found.before.size := by
  rw [matchingOffset?, cutAt?_append, Option.bind_some]

/-- The offsets at which a text can be cut are the sizes of its fronts. -/
theorem cutAt?_eq_some_iff {t : Text} {offset : Nat} {cut : Cut} :
    t.cutAt? offset = some cut ↔ cut.whole = t ∧ cut.before.size = offset := by
  constructor
  · intro h
    exact ⟨whole_of_cutAt? h, size_before_of_cutAt? h⟩
  · rintro ⟨rfl, rfl⟩
    exact cutAt?_append cut.before cut.after

/-- A text can be cut behind each of its fronts. -/
theorem isSome_cutAt?_of_prefix {s t : Text} {offset : Nat} (h : s <+: t) (hs : s.size = offset) :
    (t.cutAt? offset).isSome := by
  obtain ⟨rest, rfl⟩ := h
  rw [← hs, cutAt?_append]
  rfl

/-- The middle one of three parts is the slice between their sizes. -/
theorem between?_append (s t u : Text) :
    (s ++ t ++ u).between? s.size (s.size + t.size) = some t := by
  have hstop := cutAt?_append (s ++ t) u
  rw [size_append] at hstop
  rw [between?, hstop]
  change ((s ++ t).cutAt? s.size).bind _ = some t
  rw [cutAt?_append]
  rfl

/-- Slices are the middle ones of three parts. -/
theorem between?_eq_some_iff {t slice : Text} {start stop : Nat} :
    t.between? start stop = some slice ↔
      ∃ s u, t = s ++ slice ++ u ∧ start = s.size ∧ stop = s.size + slice.size := by
  constructor
  · intro h
    simp only [between?, Option.bind_eq_bind, Option.bind_eq_some_iff] at h
    obtain ⟨ended, hended, started, hstarted, h⟩ := h
    cases h
    obtain ⟨rfl, rfl⟩ := cutAt?_eq_some_iff.1 hended
    obtain ⟨hwhole, rfl⟩ := cutAt?_eq_some_iff.1 hstarted
    refine ⟨started.before, ended.after, ?_, rfl, ?_⟩
    · rw [Cut.whole, ← hwhole, Cut.whole]
    · rw [← hwhole, Cut.whole, size_append]
  · rintro ⟨s, u, rfl, rfl, rfl⟩
    exact between?_append s slice u

end Text

end ClassFlattening
