import ClassFlattening.Sorting
import ClassFlattening.SourcePath
import ClassFlattening.Text.Decoded

/-!
# Trees of files

A tree of files is a list of places and what is there. A place is the list of the names that lead to
it from the root, which is always a folder. A path is a text; which place it means depends on the
tree, because every name but the last has to be that of a folder. The folders above the root are
there, but nothing is known to be in them. Names and paths that are too long mean no place, and
neither does a path with a NUL in it.

Three things are left out. The root is the folder in which the program runs, and every folder is named
from it: a path that starts with a slash is one from outside the tree and means no place. A name is a
text: names that are none, of which two may be shown alike, do not occur. And there are no links, so
but for dots a place is reached in one way only. Besides its shape a tree has places that are read-only.
Nothing is made or written there, and an operation that is refused leaves the tree as it is.
-/

namespace ClassFlattening

/-- What a file holds: a text, or bytes that encode none. -/
inductive Content where
  | text (text : Text)
  | binary (bytes : List UInt8)
deriving DecidableEq, Repr

/-- The number of bytes of a file. -/
def Content.size : Content → Nat
  | text t => t.size
  | binary bytes => bytes.length

/-- What a file of these bytes holds. -/
def Content.ofBytes (bytes : ByteArray) : Content :=
  match String.fromUTF8? bytes with
  | some s => text s.toList
  | none => binary bytes.toList

/-- The text of a file that holds one. -/
def Content.text? : Content → Option Text
  | text t => some t
  | binary _ => none

/-- The text that a file is shown as. -/
def Content.shown : Content → Text
  | text t => t
  | binary bytes => Text.ofBytes bytes

/-- The most bytes of a name. -/
def nameLimit : Nat := 255

/-- The most bytes of a path. -/
def pathLimit : Nat := 4095

/-- Whether a path is short enough to be followed. -/
def isShortPath (path : Text) : Bool := path.size ≤ pathLimit

/-- Whether a path can mean a place. Paths from outside the tree cannot, which are those that start with a
slash. -/
def isRelativePath (path : Text) : Bool :=
  path.head? != some '/' && isShortPath path && !path.any fun c => c.toNat == 0

/-- The names that lead to a place. Those of a place outside the tree start with `..`. -/
abbrev Place := List Text

/-- Whether a place is the root or a folder above it. -/
def Place.isAtOrAboveRoot (place : Place) : Bool := place.all fun name => name == SourcePath.up

/-- The place of the folder above. -/
def Place.above (place : Place) : Place :=
  if place.isAtOrAboveRoot then SourcePath.up :: place else place.dropLast

/-- Whether a place comes before another: the first names that differ decide. -/
def Place.isBefore (p q : Place) : Bool := List.lex p q Text.isBefore

/-- Sorts what is at different places. -/
def sortPlaces {α : Type} (entries : List (Place × α)) : List (Place × α) :=
  sortBy (fun a b => !Place.isBefore b.1 a.1) entries

/-- What is at a place. -/
inductive Entry where
  | folder
  | file (content : Content)
deriving DecidableEq, Repr

/-- Places and what is there, each place once, and the places at which nothing may be made or written. -/
structure FileTree where
  entries : List (Place × Entry) := []
  readOnly : List Place := []
deriving DecidableEq, Repr

/-- Puts an entry in the place of the one that is there, or behind all others. -/
def putEntry (place : Place) (entry : Entry) : List (Place × Entry) → List (Place × Entry)
  | [] => [(place, entry)]
  | (p, e) :: rest =>
    if p = place then (place, entry) :: rest else (p, e) :: putEntry place entry rest

namespace FileTree

/-- What is at a place. -/
def entry? (tree : FileTree) (place : Place) : Option Entry :=
  if place.isAtOrAboveRoot then some .folder
  else (tree.entries.find? fun entry => entry.1 == place).map Prod.snd

/-- Whether there is a folder at a place. -/
def isFolder (tree : FileTree) (place : Place) : Bool := tree.entry? place == some .folder

/-- The tree with an entry at a place. -/
def put (tree : FileTree) (place : Place) (entry : Entry) : FileTree :=
  { tree with entries := putEntry place entry tree.entries }

/-- The tree without what is at a place and below. -/
def remove (tree : FileTree) (place : Place) : FileTree :=
  { tree with entries := tree.entries.filter fun entry => !place.isPrefixOf entry.1 }

/-- Follows names from a place on, which has to be a folder for each of them. -/
def follow (tree : FileTree) : Place → List Text → Option Place
  | place, [] => some place
  | place, name :: rest =>
    if tree.isFolder place then
      if name = [] ∨ name = SourcePath.here then follow tree place rest
      else if name = SourcePath.up then follow tree place.above rest
      else follow tree (place ++ [name]) rest
    else none

/-- The place that a path means. An empty path means none. -/
def locate? (tree : FileTree) (path : Text) : Option Place :=
  if isRelativePath path && !path.isEmpty then tree.follow [] (path.splitOn '/') else none

/-- What a path leads to. -/
def find? (tree : FileTree) (path : Text) : Option Entry :=
  (tree.locate? path).bind tree.entry?

/-- The text of the file that a path leads to. -/
def readText? (tree : FileTree) (path : Text) : Option Text :=
  match tree.find? path with
  | some (.file content) => content.text?
  | _ => none

/-- Whether nothing but dots follows a name, and at least one. -/
def endsInDots (rest : List Text) : Bool :=
  (rest.all fun name => name == [] || name == SourcePath.here) &&
    rest.any fun name => name == SourcePath.here

/-- Makes the folders that names lead through from a place on. The answer is the tree, and the last
place unless a file is in the way, a name is too long or a folder would have to be made at a place that
is read-only. A folder that is named as its own dot at the end of a path is not made. -/
def makeFoldersFrom (tree : FileTree) : Place → List Text → FileTree × Option Place
  | place, [] => (tree, some place)
  | place, name :: rest =>
    if name = [] ∨ name = SourcePath.here then makeFoldersFrom tree place rest
    else if name = SourcePath.up then makeFoldersFrom tree place.above rest
    else
      match tree.entry? (place ++ [name]) with
      | some .folder => makeFoldersFrom tree (place ++ [name]) rest
      | some (.file _) => (tree, none)
      | none =>
        if name.size > nameLimit || endsInDots rest || tree.readOnly.contains (place ++ [name]) then
          (tree, none)
        else makeFoldersFrom (tree.put (place ++ [name]) .folder) (place ++ [name]) rest

/-- Makes the folders of a path. The empty path needs none. -/
def makeFolders (tree : FileTree) (path : Text) : FileTree × Option Place :=
  if isRelativePath path then tree.makeFoldersFrom [] (path.splitOn '/') else (tree, none)

/-- Writes the file of a path at its place, unless a folder is there, the place is read-only or the path is
too long. -/
def write? (tree : FileTree) (path : Text) (place : Place) (content : Content) : Option FileTree :=
  if tree.isFolder place || tree.readOnly.contains place || !isRelativePath path then none
  else some (tree.put place (.file content))

/-- What is below a place with the names that lead there from it. A folder is descended into where
its name sorts among those beside it. -/
def entriesBelow (tree : FileTree) (place : Place) : List (Place × Entry) :=
  sortPlaces <| tree.entries.filterMap fun (p, entry) =>
    let names := p.drop place.length
    if place.isPrefixOf p && !names.isEmpty && names.head? != some SourcePath.up then
      some (names, entry)
    else none

/-- What is below the folder that a path means, if it means one. -/
def entriesOf? (tree : FileTree) (path : Text) : Option (List (Place × Entry)) :=
  ((tree.locate? path).filter tree.isFolder).map tree.entriesBelow

end FileTree

/-- The path of something in a folder. -/
def Text.slash (folder path : Text) : Text :=
  if folder = [] ∨ folder.getLast? = some '/' then folder ++ path else folder ++ '/' :: path

/-- The extension of a name: what follows its last dot, if there is a character in front of it. -/
def extension? (name : Text) : Option Text :=
  let cut := name.cutAfterLast (· == '.')
  if cut.before.length ≤ 1 then none else some cut.after

end ClassFlattening
