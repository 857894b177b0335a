import ClassFlattening.Lexing
import ClassFlattening.Identifier

/-!
# Brackets

Brackets are matched over the code of a text alone. `cutAtMatching?` finds the bracket that closes
the one at the start of a text, `cutAtTopLevel?` the first character of a kind that no bracket
encloses, and `splitTopLevel` takes a list apart at its own separators. `offsetAtTopLevel?` searches
for bytes instead of characters. A signature's body opens at the first brace that does not belong to
an inline error set.
-/

namespace ClassFlattening

/-- Whether a character opens a bracket. -/
@[inline] def isOpening (c : Char) : Bool := c == '(' || c == '[' || c == '{'

/-- Whether a character closes a bracket. -/
@[inline] def isClosing (c : Char) : Bool := c == ')' || c == ']' || c == '}'

namespace Text

/-- The decision of a search for the closing bracket: the state is the number of open brackets of the
kind. A closing bracket that was never opened ends the search. -/
@[inline] def matchingVerdict (opening closing : Char) (depth : Nat) (c : Char) : Verdict Nat :=
  if c = opening then .pass (depth + 1)
  else if c = closing then
    if depth = 0 then .fail
    else if depth = 1 then .stop
    else .pass (depth - 1)
  else .pass depth

/-- Cuts in front of the bracket that closes the one at the start of the text. -/
def cutAtMatching? (t : Text) (opening closing : Char) : Option Cut :=
  if t.head? = some opening then cutInCode (matchingVerdict opening closing) 0 t else none

/-- The closing bracket and what follows it are part of the text. -/
theorem whole_of_cutAtMatching? {t : Text} {opening closing : Char} {cut : Cut}
    (h : t.cutAtMatching? opening closing = some cut) : cut.whole = t := by
  rw [cutAtMatching?] at h
  split at h
  · exact whole_of_cutInCode _ h
  · simp at h

/-- What follows the closing bracket is shorter than the text. -/
theorem length_behind_lt_of_cutAtMatching? {t : Text} {opening closing : Char} {cut : Cut}
    (h : t.cutAtMatching? opening closing = some cut) :
    cut.behind.length < t.length := by
  rw [cutAtMatching?] at h
  split at h
  · exact length_behind_lt_of_cutInCode h
  · simp at h

/-- Whether the first bracket of the kind in the code of a text is a closing one. -/
def closesFirst (t : Text) (opening closing : Char) : Bool :=
  (cutInCode (fun () c => if c = opening then .fail else if c = closing then .stop else .pass ()) ()
    t).isSome

/-- The decision of a search outside all brackets: the state is the number of open brackets. A
closing bracket that was never opened ends the search. -/
@[inline] def topLevelVerdict (isTarget : Char → Bool) (depth : Nat) (c : Char) : Verdict Nat :=
  if depth = 0 && isTarget c then .stop
  else if isOpening c then .pass (depth + 1)
  else if isClosing c then
    if depth = 0 then .fail else .pass (depth - 1)
  else .pass depth

/-- Cuts in front of the first of the target characters that stands outside all brackets. -/
@[inline] def cutAtTopLevel? (t : Text) (isTarget : Char → Bool) : Option Cut :=
  cutInCode (topLevelVerdict isTarget) 0 t

/-- Where the first of the target bytes stands in the encoding of a character. -/
def byteIndex? (targets : List UInt8) (c : Char) : Option Nat :=
  (String.utf8EncodeChar c).findIdx? fun byte => byte ∈ targets

/-- The offset of the first of the target bytes that stands outside all brackets at or behind an
offset. Neither has to be a character boundary: of a character in which the offset falls the bytes
from there on count. -/
def offsetAtTopLevel? (t : Text) (offset : Nat) (targets : List UInt8) : Option Nat :=
  let cut := t.cutNear offset
  match (cut.before.bytes.drop offset).findIdx? fun byte => byte ∈ targets with
  | some index => some (offset + index)
  | none => do
    let found ← cut.after.cutAtTopLevel? fun c => (byteIndex? targets c).isSome
    let index ← found.after.head?.bind (byteIndex? targets)
    return cut.before.size + found.before.size + index

/-- The pieces between the separators outside all brackets, trimmed, blank ones included. -/
def topLevelPieces (t : Text) (separator : Char) : List Text :=
  match _found : t.cutAtTopLevel? (· == separator) with
  | some cut => cut.before.trim :: topLevelPieces cut.behind separator
  | none => [t.trim]
termination_by t.length
decreasing_by exact length_behind_lt_of_cutInCode _found

/-- The pieces between the separators outside all brackets, trimmed, without the blank ones. -/
def splitTopLevel (t : Text) (separator : Char) : List Text :=
  (t.topLevelPieces separator).filter fun piece => !piece.isEmpty

/-- Whether a text that is given last character first ends, blanks apart, with the word. -/
def endsWithWord (passed word : Text) : Bool :=
  passed.trimStart.leadingWord == word.reverse

/-- Cuts in front of the brace that opens a function's body. The second argument is the text in
front of the one searched, last character first; the braces of an inline error set are stepped
over. -/
def cutAtBodyOpen? (t passed : Text) : Option Cut :=
  match _found : t.cutAtTopLevel? (· == '{') with
  | none => none
  | some cut =>
    let front := cut.before.reverse ++ passed
    if endsWithWord front "error".toList then
      match _closed : cut.after.cutAtMatching? '{' '}' with
      | none => none
      | some set =>
        (cutAtBodyOpen? set.behind (set.through.reverse ++ front)).map fun rest =>
          ⟨cut.before ++ (set.through ++ rest.before), rest.after⟩
    else some cut
termination_by t.length
decreasing_by
  exact Nat.lt_of_lt_of_le (length_behind_lt_of_cutAtMatching? _closed)
    (length_after_le (whole_of_cutInCode _ _found))

/-- A cut at the body's brace loses nothing. -/
theorem whole_of_cutAtBodyOpen? {t passed : Text} {cut : Cut}
    (h : t.cutAtBodyOpen? passed = some cut) : cut.whole = t := by
  fun_induction cutAtBodyOpen? t passed generalizing cut with
  | case1 => simp at h
  | case2 => simp at h
  | case3 t passed found hfound front _ set hset =>
    rename_i ih
    obtain ⟨inner, hinner, rfl⟩ := Option.map_eq_some_iff.1 h
    rw [← whole_of_cutInCode _ hfound, Cut.whole, Cut.whole, ← whole_of_cutAtMatching? hset,
      ← set.through_append_behind, ← ih hinner, Cut.whole]
    simp
  | case4 t passed found hfound =>
    cases h
    exact whole_of_cutInCode _ hfound

end Text

end ClassFlattening
