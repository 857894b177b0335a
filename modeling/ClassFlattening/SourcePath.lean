import ClassFlattening.Text.Basic

/-!
# Source paths

Files are known by paths with slashes, relative to the source root. A path is normal if it names no
component that stands for another place; importing a file means joining the import onto the
directory of the importing file and normalising the result. Paths that could leave the root, or that
other systems might read differently, are unsafe.
-/

namespace ClassFlattening

namespace SourcePath

/-- The component for the directory itself. -/
def here : Text := ['.']

/-- The component for the directory above. -/
def up : Text := ['.', '.']

/-- One more component on a folded path, whose last component comes first. -/
def foldComponent (folded : List Text) (component : Text) : List Text :=
  if component = [] ∨ component = here then folded
  else if component = up then
    match folded with
    | last :: rest => if last = up then up :: folded else rest
    | [] => [up]
  else component :: folded

/-- The components of a path, without those that stand for another place where that is known. -/
def components (path : Text) : List Text :=
  ((path.splitOn '/').foldl foldComponent []).reverse

/-- Components as one path. -/
def join (components : List Text) : Text := ['/'].intercalate components

/-- The normal form of a path. -/
def normalize (path : Text) : Text := join (components path)

/-- The path that an import in a file leads to. -/
def resolve (file imported : Text) : Text :=
  if '/' ∈ file then normalize ((file.cutAfterLast (· == '/')).before ++ imported)
  else normalize imported

/-- Why a path is unsafe. -/
inductive Violation where
  | parentTraversal
  | absolute
  | driveLetter
  | backslash
  | nul
  | controlCharacter
  | encodedTraversal
deriving DecidableEq, Repr

/-- The wording of a violation. -/
def Violation.message : Violation → String
  | parentTraversal => "parent directory segment"
  | absolute => "absolute path"
  | driveLetter => "drive letter prefix"
  | backslash => "backslash separator"
  | nul => "NUL byte"
  | controlCharacter => "control character"
  | encodedTraversal => "percent-encoded traversal"

/-- Whether a character is an ASCII control other than tab, newline and return. -/
def isForbiddenControl (c : Char) : Bool :=
  (c.toNat < 32 || c.toNat == 127) && c != '\t' && c != '\n' && c != '\r'

/-- Whether a path starts with an ASCII letter and a colon. -/
def startsWithDrive : Text → Bool
  | c :: ':' :: _ => c.isAlpha
  | _ => false

/-- Spellings of an encoded dot. -/
def encodedDots : List Text :=
  ["%2e".toList, "%2E".toList, "%252e".toList, "%252E".toList]

/-- The first violation of a path, in the order in which they are looked for. -/
def violation? (path : Text) : Option Violation :=
  if path.any fun c => c.toNat == 0 then some .nul
  else if path.any isForbiddenControl then some .controlCharacter
  else if '\\' ∈ path then some .backslash
  else if path.head? = some '/' then some .absolute
  else if startsWithDrive path then some .driveLetter
  else if up ∈ path.splitOn '/' then some .parentTraversal
  else if encodedDots.any path.contains then some .encodedTraversal
  else none

end SourcePath

end ClassFlattening
