import ClassFlattening.Proofs.Slices

/-!
# Programs over offsets

The searches of this library answer with cuts, so they never take a slice at an offset. A program that
keeps offsets instead takes slices, reads single bytes and counts down, and each of these may go wrong;
its loops may also run for ever. `Steps` is the type of such programs: none if the program never ends,
else a misstep or a result. A program that is equal to `pure` of a result ends without a misstep.

An offset is told by the text behind it: `offsetOf whole rest` is the offset at which a rest of a text
starts. The slice between two rests is what stands between them.
-/

namespace ClassFlattening

/-- How a program over offsets goes wrong. -/
inductive Misstep where
  /-- A slice that reaches behind the end, ends in front of its start or splits a character. -/
  | slice (start stop : Nat)
  /-- A byte behind the end. -/
  | byte (offset : Nat)
  /-- A difference below zero. -/
  | belowZero
deriving DecidableEq, Repr

/-- A program over offsets. -/
abbrev Steps (α : Type) := ExceptT Misstep Option α

namespace Text

/-- The offset at which a rest of a text starts. -/
def offsetOf (whole rest : Text) : Nat := whole.size - rest.size

section OffsetOf

variable {whole s t : Text}

@[simp] theorem offsetOf_self (t : Text) : t.offsetOf t = 0 := Nat.sub_self _

@[simp] theorem offsetOf_nil (t : Text) : t.offsetOf [] = t.size := rfl

/-- A text is in front of a rest of it up to the offset of the rest. -/
theorem offsetOf_append (s t : Text) : (s ++ t).offsetOf t = s.size := by
  rw [offsetOf, size_append, Nat.add_sub_cancel]

/-- Going on behind a part of a rest moves the offset by the size of the part. -/
theorem offsetOf_add (h : s ++ t <:+ whole) :
    whole.offsetOf (s ++ t) + s.size = whole.offsetOf t := by
  obtain ⟨front, rfl⟩ := h
  rw [offsetOf_append, ← List.append_assoc, offsetOf_append, size_append]

/-- Going on behind a character of one byte moves the offset by one. -/
theorem offsetOf_add_one {c : Char} (hc : c.utf8Size = 1) (h : c :: t <:+ whole) :
    whole.offsetOf (c :: t) + 1 = whole.offsetOf t := by
  have hadd := offsetOf_add (s := [c]) h
  rw [size_cons, hc] at hadd
  exact hadd

/-- Going on behind a character moves the offset. -/
theorem offsetOf_cons_lt {c : Char} (h : c :: t <:+ whole) :
    whole.offsetOf (c :: t) < whole.offsetOf t := by
  have hadd := offsetOf_add (s := [c]) h
  have hpos := c.utf8Size_pos
  rw [List.singleton_append, size_cons] at hadd
  omega

/-- Behind a cut of a rest the offset has moved by the size of the part in front. -/
theorem offsetOf_cut {cut : Cut} (hwhole : cut.whole = t) (h : t <:+ whole) :
    whole.offsetOf t + cut.before.size = whole.offsetOf cut.after := by
  subst hwhole
  exact offsetOf_add h

/-- The part behind a cut starts at the size of the part in front. -/
theorem offsetOf_after {cut : Cut} (hwhole : cut.whole = t) : t.offsetOf cut.after = cut.before.size := by
  subst hwhole
  exact offsetOf_append cut.before cut.after

/-- A shorter rest starts further behind. -/
theorem offsetOf_lt_offsetOf {rest : Text} (hrest : rest <:+ t) (hlt : rest.length < t.length)
    (h : t <:+ whole) : whole.offsetOf t < whole.offsetOf rest := by
  obtain ⟨front, rfl⟩ := hrest
  cases front with
  | nil => exact absurd hlt (Nat.lt_irrefl _)
  | cons c front =>
    have hadd := offsetOf_add h
    have hpos := c.utf8Size_pos
    rw [size_cons] at hadd
    omega

/-- A rest lies in front of the end. -/
theorem offsetOf_lt {c : Char} (h : c :: t <:+ whole) : whole.offsetOf (c :: t) < whole.size := by
  obtain ⟨front, rfl⟩ := h
  have hpos := c.utf8Size_pos
  rw [offsetOf_append, size_append, size_cons]
  omega

theorem offsetOf_le (whole rest : Text) : whole.offsetOf rest ≤ whole.size := Nat.sub_le _ _

/-- The size of a rest is what is left of the size behind its offset. -/
theorem size_sub_offsetOf (h : t <:+ whole) : whole.size - whole.offsetOf t = t.size := by
  obtain ⟨front, rfl⟩ := h
  rw [offsetOf_append, size_append, Nat.add_sub_cancel_left]

end OffsetOf

/-- The offset of the first character with the property. -/
def firstOffset? (p : Char → Bool) (t : Text) : Option Nat :=
  (t.cutAtFirst? p).map fun cut => cut.before.size

/-- The offset of the last character with the property. -/
def lastOffset? (p : Char → Bool) (t : Text) : Option Nat :=
  match (t.cutAfterLast p).before with
  | [] => none
  | c :: rest => some (size (c :: rest).dropLast)

/-- The offset of the first occurrence of a pattern. -/
def textOffset? (t pattern : Text) : Option Nat :=
  (t.cutAtText? pattern).map fun cut => cut.before.size

end Text

namespace ByOffset

open Text

/-- A text that a program over offsets reads. -/
abbrev Source := Text

/-- The bytes of such a text. -/
abbrev Bytes := List UInt8

/-- The text between two offsets. -/
def slice (t : Text) (start stop : Nat) : Steps Text :=
  match t.between? start stop with
  | some found => pure found
  | none => throw (.slice start stop)

/-- The text from an offset on. -/
def sliceFrom (t : Text) (start : Nat) : Steps Text := slice t start t.size

/-- The text up to an offset. -/
def sliceTo (t : Text) (stop : Nat) : Steps Text := slice t 0 stop

/-- The byte at an offset. -/
def byteAt (bytes : List UInt8) (offset : Nat) : Steps UInt8 :=
  match bytes[offset]? with
  | some byte => pure byte
  | none => throw (.byte offset)

/-- The difference of two numbers. -/
def minus (m n : Nat) : Steps Nat := if n ≤ m then pure (m - n) else throw .belowZero

section Slices

variable {whole s t u : Text}

/-- The slice between two rests is the text between them. -/
theorem slice_offsetOf (h : s ++ t <:+ whole) :
    slice whole (whole.offsetOf (s ++ t)) (whole.offsetOf t) = pure s := by
  obtain ⟨front, rfl⟩ := h
  have hslice := between?_append front s t
  rw [← size_append, List.append_assoc] at hslice
  rw [offsetOf_append, ← List.append_assoc, offsetOf_append, List.append_assoc, slice, hslice]

-- An offset within a character is that of no rest.
example : slice "éa".toList 0 1 = throw (.slice 0 1) := rfl

/-- The slice from a rest up to a part of it is what is in front of the part. -/
theorem slice_of_append (hwhole : s ++ u = t) (h : t <:+ whole) :
    slice whole (whole.offsetOf t) (whole.offsetOf u) = pure s := by
  subst hwhole
  exact slice_offsetOf h

/-- The slice from a rest on is the rest. -/
theorem sliceFrom_offsetOf (h : t <:+ whole) : sliceFrom whole (whole.offsetOf t) = pure t := by
  have hend : t ++ [] <:+ whole := by rwa [List.append_nil]
  have hslice := slice_offsetOf hend
  rwa [List.append_nil, offsetOf_nil] at hslice

/-- The slice from the size of a front on is what is behind the front. -/
theorem sliceFrom_append (s t : Text) : sliceFrom (s ++ t) s.size = pure t := by
  rw [← offsetOf_append s t]
  exact sliceFrom_offsetOf (List.suffix_append s t)

/-- The slice up to the size of a front is the front. -/
theorem sliceTo_append (s t : Text) : sliceTo (s ++ t) s.size = pure s := by
  have hslice := slice_offsetOf (List.suffix_refl (s ++ t))
  rwa [offsetOf_self, offsetOf_append] at hslice

/-- The slice up to a rest is the text in front of it. -/
theorem sliceTo_offsetOf (s t : Text) : sliceTo (s ++ t) ((s ++ t : Text).offsetOf t) = pure s := by
  rw [offsetOf_append, sliceTo_append]

/-- The slice from one byte behind a front on leaves out the character there. -/
theorem sliceFrom_append_add_one {c : Char} (hc : c.utf8Size = 1) (s t : Text) :
    sliceFrom (s ++ c :: t) (s.size + 1) = pure t := by
  have hslice := sliceFrom_append (s ++ [c]) t
  rwa [List.append_assoc, List.singleton_append, size_append, size_cons, hc] at hslice

/-- The slice between the sizes of two fronts is what stands between them. -/
theorem slice_append (s t u : Text) : slice (s ++ (t ++ u)) s.size (s ++ t : Text).size = pure t := by
  rw [slice, size_append, ← List.append_assoc, between?_append]

theorem minus_of_le {m n : Nat} (h : n ≤ m) : minus m n = pure (m - n) := if_pos h

end Slices

end ByOffset

end ClassFlattening
