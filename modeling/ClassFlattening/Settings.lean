import ClassFlattening.Json

/-!
# Settings

What a generation can be told: the texts in front of the names of getters and setters, whether a
declaration that cannot be read is an error, whether sources without classes are copied, and the
extension that source files have. Settings are written in JSON, either by name or in order; what is
not given keeps its default, and names that mean nothing here are allowed.
-/

namespace ClassFlattening

/-- The settings of a generation. -/
structure Settings where
  getterPrefix : Text := "get_".toList
  setterPrefix : Text := "set_".toList
  strictDeclarations : Bool := false
  copyPassthrough : Bool := false
  sourceExtension : Text := "zig".toList
deriving DecidableEq, Repr

namespace Settings

/-- The settings as they are named and ordered in JSON. -/
inductive Key where
  | getterPrefix
  | setterPrefix
  | strictDeclarations
  | copyPassthrough
  | sourceExtension
deriving DecidableEq, Repr

/-- All keys, in order. -/
def Key.all : List Key :=
  [getterPrefix, setterPrefix, strictDeclarations, copyPassthrough, sourceExtension]

/-- The name of a key. -/
def Key.name : Key → Text
  | getterPrefix => "getter_prefix".toList
  | setterPrefix => "setter_prefix".toList
  | strictDeclarations => "strict_declarations".toList
  | copyPassthrough => "copy_passthrough".toList
  | sourceExtension => "source_extension".toList

/-- The settings with a value of JSON under a key, if it is of the key's type. -/
def set? (s : Settings) : Key → Json → Option Settings
  | .getterPrefix, .string (some t) => some { s with getterPrefix := t }
  | .setterPrefix, .string (some t) => some { s with setterPrefix := t }
  | .strictDeclarations, .bool b => some { s with strictDeclarations := b }
  | .copyPassthrough, .bool b => some { s with copyPassthrough := b }
  | .sourceExtension, .string (some t) => some { s with sourceExtension := t }
  | _, _ => none

/-- Settings given by name, behind those under the seen keys. No key may be given twice. -/
def setEntries? (s : Settings) (seen : List Key) : List (Option Text × Json) → Option Settings
  | [] => some s
  | (none, _) :: _ => none
  | (some name, value) :: rest =>
    match Key.all.find? fun key => key.name == name with
    | none => setEntries? s seen rest
    | some key =>
      if key ∈ seen then none
      else (s.set? key value).bind fun s => setEntries? s (key :: seen) rest

/-- Settings given in order. There may be no more values than keys. -/
def setItems? (s : Settings) : List Key → List Json → Option Settings
  | _, [] => some s
  | [], _ :: _ => none
  | key :: keys, value :: values => (s.set? key value).bind fun s => setItems? s keys values

/-- The settings that a value of JSON stands for. -/
def ofJson? : Json → Option Settings
  | .object entries => setEntries? {} [] entries
  | .array items => setItems? {} Key.all items
  | _ => none

/-- Reads settings. -/
def read? (t : Text) : Option Settings := (Json.read? t).bind ofJson?

end Settings

end ClassFlattening
