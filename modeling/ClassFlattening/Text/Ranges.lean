/-!
# Ranges of code points

The character classes of this library are given by tables of inclusive ranges of code points.
-/

namespace ClassFlattening

/-- Whether one of the inclusive ranges holds the code point. -/
def inRanges (ranges : List (Nat × Nat)) (point : Nat) : Bool :=
  ranges.any fun range => range.1 ≤ point && point ≤ range.2

/-- A code point is in the ranges exactly when it is between the ends of one of them. -/
theorem inRanges_iff {ranges : List (Nat × Nat)} {point : Nat} :
    inRanges ranges point = true ↔ ∃ range ∈ ranges, range.1 ≤ point ∧ point ≤ range.2 := by
  simp [inRanges]

end ClassFlattening
