import ClassFlattening.Text.Blank
import ClassFlattening.Text.Letter
import ClassFlattening.Text.Numeral

/-!
# Identifiers and words

An identifier is a run of letters, numerals and underscores that does not start with a numeral. A
word of a text is a maximal run of such characters, so a keyword is found only where it stands
alone. Names that are written into generated code keep to ASCII and may be qualified with dots.
-/

namespace ClassFlattening

/-- Whether a character may stand in an identifier. -/
def isIdentChar (c : Char) : Bool := isLetter c || isNumeral c || c == '_'

/-- Whether a character may start an identifier. -/
def isIdentStart (c : Char) : Bool := isLetter c || c == '_'

/-- Whether a text is one identifier. -/
def isIdentifier : Text → Bool
  | [] => false
  | c :: rest => isIdentStart c && rest.all isIdentChar

/-- The most bytes that a name in generated code may have. -/
def typeNameLimit : Nat := 256

/-- Whether a text may be written into generated code as the name of a type: it starts with an
ASCII letter or an underscore, goes on with those, digits and dots, and keeps to the limit. -/
def isTypeName : Text → Bool
  | [] => false
  | c :: rest =>
    (c.isAlpha || c == '_') && Text.size (c :: rest) ≤ typeNameLimit
      && rest.all fun d => d.isAlphanum || d == '_' || d == '.'

namespace Text

/-- The word at the start of a text, empty if the text starts with something else. -/
def leadingWord (t : Text) : Text := t.takeWhile isIdentChar

/-- The text behind the word at its start. -/
def afterLeadingWord (t : Text) : Text := t.dropWhile isIdentChar

/-- A text is its leading word and what follows it. -/
theorem leadingWord_append_afterLeadingWord (t : Text) :
    t.leadingWord ++ t.afterLeadingWord = t :=
  List.takeWhile_append_dropWhile

/-- Cuts in front of the first word that is the given one. -/
def cutAtWord? (t word : Text) : Option Cut :=
  cutWhere
    (fun inWord c rest =>
      if !inWord && leadingWord (c :: rest) == word then .stop else .pass (isIdentChar c))
    false t

/-- Cuts in front of the last word that is the given one: the first one of the text read from its
end. -/
def cutAtLastWord? (t word : Text) : Option Cut :=
  (cutAtWord? t.reverse word.reverse).map fun cut =>
    ⟨(cut.after.drop word.length).reverse, word ++ cut.before.reverse⟩

/-- A text with a leading word is longer than what follows the word. -/
theorem length_afterLeadingWord_lt {t : Text} (h : t.leadingWord ≠ []) :
    t.afterLeadingWord.length < t.length := by
  have hlen := congrArg List.length t.leadingWord_append_afterLeadingWord
  have hpos := List.length_pos_iff.2 h
  rw [List.length_append] at hlen
  omega

/-- The text without the qualifying words, and the blanks, at its start. -/
def dropQualifiers (words : List Text) (t : Text) : Text :=
  if h : t.trimStart.leadingWord ≠ [] ∧ t.trimStart.leadingWord ∈ words then
    have := length_afterLeadingWord_lt h.1
    have := t.length_trimStart_le
    dropQualifiers words t.trimStart.afterLeadingWord
  else t.trimStart
termination_by t.length

end Text

end ClassFlattening
