import ClassFlattening.Proofs.Nesting
import ClassFlattening.Proofs.Words

/-!
# Lists as they are written

A piece may be written in front of some characters if it is there, trimmed and balanced in front of them.
A list is written with a comma and a blank between its pieces. Taking such a text apart at its own commas
gives the pieces back, also if there are blanks around the list.
-/

namespace ClassFlattening

namespace Text

/-- A text that may be written in front of some characters. -/
structure Writable (ends : Char → Bool) (t : Text) : Prop where
  ne_nil : t ≠ []
  trim : t.trim = t
  balanced : t.Balanced ends

instance (ends : Char → Bool) (t : Text) : Decidable (t.Writable ends) :=
  decidable_of_iff (t ≠ [] ∧ t.trim = t ∧ t.Balanced ends)
    ⟨fun h => ⟨h.1, h.2.1, h.2.2⟩, fun h => ⟨h.ne_nil, h.trim, h.balanced⟩⟩

/-- A list as it is written. -/
def listed : List Text → Text
  | [] => []
  | [piece] => piece
  | piece :: next :: pieces => piece ++ ", ".toList ++ listed (next :: pieces)

section Blanks

variable {s t : Text}

/-- A blank is plain in front of characters that are no blanks. -/
theorem isPlain_of_isBlank {ends : Char → Bool} {c : Char} (h : isBlank c = true)
    (hends : ends c = false) : isPlain ends c = true := by
  have hsigns : ∀ d ∈ signs, isBlank d = false := forall_of_all (by decide)
  refine isPlain_of_not_mem ?_ hends
  intro hc
  rw [hsigns c hc] at h
  cases h

/-- A text of blanks is balanced in front of characters that are no blanks. -/
theorem balanced_of_allBlank {ends : Char → Bool} (h : s.allBlank = true)
    (hends : ∀ c, isBlank c = true → ends c = false) : s.Balanced ends := by
  apply Balanced.of_plain
  rw [List.all_eq_true]
  intro c hc
  have hblank := List.all_eq_true.1 h c hc
  exact isPlain_of_isBlank hblank (hends c hblank)

/-- A blank starts no comment. -/
theorem isLineStart_of_isBlank {c : Char} (h : isBlank c = true) : isLineStart c = false := by
  have hplain : isPlain (fun _ => false) c = true := isPlain_of_isBlank h rfl
  have hcode := (isPlain_iff.1 hplain).1
  simp only [isCodeChar, Bool.and_eq_true, Bool.not_eq_true'] at hcode
  exact hcode.2

/-- Blanks are apart from every text behind them. -/
theorem apart_of_allBlank_left (h : s.allBlank = true) : Apart s t :=
  apart_of_last fun _ hc => isLineStart_of_isBlank (List.all_eq_true.1 h _ (List.mem_of_mem_getLast? hc))

/-- Blanks are apart from every text in front of them. -/
theorem apart_of_allBlank_right (h : t.allBlank = true) : Apart s t :=
  apart_of_head fun _ hc => isLineStart_of_isBlank (List.all_eq_true.1 h _ (List.mem_of_mem_head? hc))

/-- Blanks around a balanced text leave it balanced. -/
theorem Balanced.around {ends : Char → Bool} {u : Text} (ht : t.Balanced ends)
    (hs : s.allBlank = true) (hu : u.allBlank = true)
    (hends : ∀ c, isBlank c = true → ends c = false) : (s ++ t ++ u).Balanced ends :=
  ((balanced_of_allBlank hs hends).append ht (apart_of_allBlank_left hs)).append
    (balanced_of_allBlank hu hends) (apart_of_allBlank_right hu)

end Blanks

section Listed

variable {pieces : List Text} {front back : Text}

/-- A blank is no comma. -/
theorem ne_comma_of_isBlank (c : Char) (h : isBlank c = true) : (c == ',') = false := by
  have hcomma : isBlank ',' = false := by decide
  rw [beq_eq_false_iff_ne]
  intro heq
  rw [heq, hcomma] at h
  cases h

/-- A list is balanced if its pieces are. -/
theorem balanced_listed {ends : Char → Bool} (h : ∀ piece ∈ pieces, piece.Balanced ends)
    (hcomma : ends ',' = false) (hblank : ends ' ' = false) : (listed pieces).Balanced ends := by
  induction pieces with
  | nil => exact .nil
  | cons piece pieces ih =>
    have hpiece := h piece List.mem_cons_self
    cases pieces with
    | nil => exact hpiece
    | cons next pieces =>
      have hrest := ih fun p hp => h p (List.mem_cons_of_mem piece hp)
      have hspace : [' '].all (isPlain ends) = true := by
        rw [List.all_cons, isPlain_iff.2 ⟨rfl, rfl, hblank⟩]
        rfl
      rw [listed, List.append_assoc]
      exact hpiece.glue hrest (isPlain_iff.2 ⟨rfl, rfl, hcomma⟩) hspace

/-- The pieces of a list are found in it. -/
theorem topLevelPieces_listed (hne : pieces ≠ [])
    (h : ∀ piece ∈ pieces, piece.Writable (· == ',')) (hfront : front.allBlank = true)
    (hback : back.allBlank = true) : (front ++ listed pieces ++ back).topLevelPieces ',' = pieces := by
  induction pieces generalizing front with
  | nil => exact absurd rfl hne
  | cons piece pieces ih =>
    have hpiece := h piece List.mem_cons_self
    cases pieces with
    | nil =>
      have hnone := (hpiece.balanced.around hfront hback ne_comma_of_isBlank).cutAtTopLevel?_eq_none
      rw [listed, topLevelPieces]
      split
      · next hcut =>
        rw [hnone] at hcut
        cases hcut
      · rw [trim_around hfront hpiece.trim hback]
    | cons next pieces =>
      have hcut := (hpiece.balanced.around hfront (u := []) rfl ne_comma_of_isBlank).cutAtTopLevel?
        (c := ',') rfl rfl rfl (' ' :: listed (next :: pieces) ++ back)
      have hwhole : front ++ listed (piece :: next :: pieces) ++ back =
          front ++ piece ++ [] ++ ',' :: (' ' :: listed (next :: pieces) ++ back) := by
        simp [listed]
      rw [hwhole, topLevelPieces]
      split
      · next cut hfound =>
        rw [hcut] at hfound
        cases hfound
        rw [trim_around hfront hpiece.trim rfl]
        have hspace : allBlank [' '] = true := rfl
        congr 1
        exact ih (List.cons_ne_nil _ _) (fun p hp => h p (List.mem_cons_of_mem piece hp)) hspace
      · next hfound =>
        rw [hcut] at hfound
        cases hfound

/-- Taking a list apart at its commas gives its pieces. -/
theorem splitTopLevel_listed (h : ∀ piece ∈ pieces, piece.Writable (· == ','))
    (hfront : front.allBlank = true) (hback : back.allBlank = true) :
    (front ++ listed pieces ++ back).splitTopLevel ',' = pieces := by
  rw [splitTopLevel]
  cases pieces with
  | nil =>
    have hblank : (front ++ listed [] ++ back).allBlank = true := by
      simp only [listed, allBlank, List.append_nil, List.all_append, Bool.and_eq_true]
      exact ⟨hfront, hback⟩
    have hnone := (balanced_of_allBlank hblank ne_comma_of_isBlank).cutAtTopLevel?_eq_none
    have htrim := trim_around hblank (t := []) rfl (u := []) rfl
    rw [List.append_nil, List.append_nil] at htrim
    rw [topLevelPieces]
    split
    · next hcut =>
      rw [hnone] at hcut
      cases hcut
    · rw [htrim]
      rfl
  | cons piece pieces =>
    rw [topLevelPieces_listed (List.cons_ne_nil _ _) h hfront hback, List.filter_eq_self]
    intro p hp
    simpa using (h p hp).ne_nil

end Listed

end Text

end ClassFlattening
