import ClassFlattening.Identifier
import ClassFlattening.Lexing

/-!
# Renaming

A name is replaced where it stands as a whole word in code. Literals and comments are copied. A pair
of backslashes starts nothing here, so the lines of a multiline literal are code like any other.
-/

namespace ClassFlattening

/-- Whether a name starts a text and no identifier goes on behind it. -/
def standsAt (name t : Text) : Bool :=
  name.isPrefixOf t && !(t.drop name.length).head?.any isIdentChar

/-- Renames in the rest of a text: the mode of its first character, whether an identifier goes on
from in front of it, and how many characters of a replaced name are still to be left out. -/
def renameFrom (old new : Text) : Mode → Bool → Nat → Text → Text
  | _, _, _, [] => []
  | mode, _, skip + 1, c :: rest => renameFrom old new mode (isIdentChar c) skip rest
  | mode, inWord, 0, c :: rest =>
    let (isCode, next) := mode.read (· == '/') c rest
    if mode = .code && isCode && !inWord && standsAt old (c :: rest) then
      new ++ renameFrom old new .code (isIdentChar c) (old.length - 1) rest
    else c :: renameFrom old new next (isIdentChar c) 0 rest

/-- The text with every word of its code that is the old name replaced by the new one. -/
def rename (t old new : Text) : Text :=
  if old.isEmpty then t else renameFrom old new .code false 0 t

end ClassFlattening
