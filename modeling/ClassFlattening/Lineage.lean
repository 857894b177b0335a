import ClassFlattening.Registry

/-!
# Lines of ancestors

The ancestors of a class are found by following parent references, each from the file of the class
that states it. A reference that leads nowhere ends the line: what it stands for is not ours to
flatten. A line that comes back to itself or goes on for more than `lineageLimit` ancestors is an
error. `Registry.checkLineage` only walks the line, `Registry.ancestors` collects it.
-/

namespace ClassFlattening

/-- The most ancestors that a class may have. -/
def lineageLimit : Nat := 256

/-- What may be wrong with the line of a class. -/
inductive LineageFault where
  /-- The line of the class reaches a class again. -/
  | circular (name reached : Text)
  | tooDeep (name : Text)
deriving DecidableEq, Repr

/-- The wording of a fault. -/
def LineageFault.message : LineageFault → Text
  | circular name reached =>
    "Circular inheritance: ".toList ++ name ++ " reaches ".toList ++ reached ++ " again".toList
  | tooDeep name =>
    "Inheritance chain of ".toList ++ name ++ " exceeds maximum depth ".toList ++
      Text.decimal lineageLimit

/-- What tells one class from another: its file and its name. -/
def Class.key (c : Class) : Text × Text := (c.file, c.name)

namespace Registry

/-- Walks on from a reference in a file, with the keys of the classes visited so far and the number
of ancestors that may still come. -/
def checkFrom (registry : Registry) (name : Text) (room : Nat) (visited : List (Text × Text))
    (reference : Option Text) (file : Text) : Except LineageFault Unit :=
  match reference.bind fun r => registry.resolve? r file with
  | none => .ok ()
  | some parent =>
    if parent.key ∈ visited then .error (.circular name parent.name)
    else
      match room with
      | 0 => .error (.tooDeep name)
      | room + 1 =>
        checkFrom registry name room (parent.key :: visited) parent.parent parent.file

/-- Checks the line of a class of the given name, file and parent reference. -/
def checkLineage (registry : Registry) (name : Text) (parent : Option Text) (file : Text) :
    Except LineageFault Unit :=
  registry.checkFrom name lineageLimit [(file, name)] parent file

/-- Checks the line of every class; the first fault stands. -/
def validate (registry : Registry) : Except LineageFault Unit :=
  registry.classes.forM fun c => registry.checkLineage c.name c.parent c.file

/-- Collects a class's line from one of its members on. The members found so far are given nearest
first, and with them the number of ancestors that may still come. -/
def ancestorsFrom (registry : Registry) (c : Class) (room : Nat) (found : List Class)
    (member : Class) : Except LineageFault (List Class) :=
  match member.parent.bind fun r => registry.resolve? r member.file with
  | none => .ok found
  | some parent =>
    if (c :: found).any fun a => a.key == parent.key then .error (.circular c.name parent.name)
    else
      match room with
      | 0 => .error (.tooDeep c.name)
      | room + 1 => ancestorsFrom registry c room (found ++ [parent]) parent

/-- The ancestors of a class, nearest first. -/
def ancestors (registry : Registry) (c : Class) : Except LineageFault (List Class) :=
  registry.ancestorsFrom c lineageLimit [] c

end Registry

end ClassFlattening
