import ClassFlattening.Text.Basic
import ClassFlattening.Text.Ranges

/-!
# Blanks and trimming

A blank is a character with the Unicode property White_Space. Trimming removes the blanks at the
ends of a text; what is left neither starts nor ends with one.
-/

namespace ClassFlattening

/-- The code points with the property White_Space. -/
def blankRanges : List (Nat × Nat) :=
  [(0x9, 0xD), (0x20, 0x20), (0x85, 0x85), (0xA0, 0xA0), (0x1680, 0x1680), (0x2000, 0x200A),
    (0x2028, 0x2029), (0x202F, 0x202F), (0x205F, 0x205F), (0x3000, 0x3000)]

/-- Whether a character is white space. -/
def isBlank (c : Char) : Bool := inRanges blankRanges c.toNat

/-- Every character that the core library counts as white space is blank. -/
theorem isBlank_of_isWhitespace {c : Char} (h : c.isWhitespace = true) : isBlank c = true := by
  simp only [Char.isWhitespace, Bool.or_eq_true, decide_eq_true_eq] at h
  rcases h with ((rfl | rfl) | rfl) | rfl <;> decide

namespace Text

/-- Whether a text has blanks only. -/
def allBlank (t : Text) : Bool := t.all isBlank

/-- The text without the blanks in front. -/
def trimStart (t : Text) : Text := t.dropWhile isBlank

/-- The text without the blanks at its end. -/
def trimEnd (t : Text) : Text := (t.reverse.dropWhile isBlank).reverse

/-- The text without the blanks at either end. -/
def trim (t : Text) : Text := t.trimStart.trimEnd

/-- Trimming the front never lengthens a text. -/
theorem length_trimStart_le (t : Text) : t.trimStart.length ≤ t.length :=
  (List.dropWhile_sublist _).length_le

/-- A text that is trimmed in front does not start with a blank. -/
theorem not_isBlank_of_trimStart_eq_cons {t rest : Text} {c : Char}
    (h : t.trimStart = c :: rest) : isBlank c = false := by
  have := List.head?_dropWhile_not isBlank t
  simp [trimStart] at h
  simp [h] at this
  exact this

end Text

end ClassFlattening
