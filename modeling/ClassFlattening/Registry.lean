import ClassFlattening.Class
import ClassFlattening.Import

/-!
# The registry of files and classes

The registry holds what was read from each file: its aliases, its classes and its source. Files keep
the order in which they were first registered; registering a path again replaces what was known of
it. A class whose name is taken in its file is dropped. A reference is followed from a file: a bare
name stands for a class of that file, a name behind an alias for one of the file that the alias
stands for.
-/

namespace ClassFlattening

/-- What is known of one file. -/
structure FileRecord where
  path : Text
  aliases : Aliases := []
  classes : List Class := []
  source : Text := []
deriving DecidableEq, Repr

/-- The class of a file with the name. -/
def FileRecord.class? (record : FileRecord) (name : Text) : Option Class :=
  record.classes.find? fun c => c.name == name

/-- Adds a class to a record, unless its name is taken. -/
def FileRecord.add (record : FileRecord) (c : Class) : FileRecord :=
  match record.class? c.name with
  | some _ => record
  | none => { record with classes := record.classes ++ [c] }

/-- The files in the order of their first registration, and the texts pooled so far, each once. -/
structure Registry where
  files : List FileRecord := []
  pool : List Text := []
deriving DecidableEq, Repr

/-- Puts a record in the place of the one with its path, or behind all others. -/
def replaceRecord (record : FileRecord) : List FileRecord → List FileRecord
  | [] => [record]
  | r :: rest => if r.path = record.path then record :: rest else r :: replaceRecord record rest

namespace Registry

/-- The record of a path. -/
def file? (registry : Registry) (path : Text) : Option FileRecord :=
  registry.files.find? fun record => record.path == path

/-- Registers a file. A record of the same path is replaced, with all its classes. -/
def register (registry : Registry) (record : FileRecord) : Registry :=
  { registry with files := replaceRecord record registry.files }

/-- Pools a text. -/
def intern (registry : Registry) (text : Text) : Registry :=
  if text ∈ registry.pool then registry else { registry with pool := registry.pool ++ [text] }

/-- Pools the name and the references of a class. -/
def internClass (registry : Registry) (c : Class) : Registry :=
  (c.name :: c.parent.toList ++ c.mixins).foldl intern registry

/-- The class of a file with the name. -/
def class? (registry : Registry) (path name : Text) : Option Class :=
  (registry.file? path).bind fun record => record.class? name

/-- The class that a reference stands for in a file. -/
def resolve? (registry : Registry) (reference file : Text) : Option Class :=
  match Text.cutAtFirst? (· == '.') reference.trim with
  | some cut => do
    let record ← registry.file? file
    let target ← record.aliases.path? cut.before.trim
    registry.class? target cut.behind.trim
  | none => registry.class? file reference.trim

/-- All classes, file by file. -/
def classes (registry : Registry) : List Class := registry.files.flatMap FileRecord.classes

/-- The number of all classes. -/
def classCount (registry : Registry) : Nat := registry.classes.length

/-- The number of pooled texts. -/
def poolSize (registry : Registry) : Nat := registry.pool.length

end Registry

end ClassFlattening
