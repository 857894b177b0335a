import ClassFlattening.Text.Basic

/-!
# Classes

A class is what one declaration says, member by member. Every part keeps the text it was read from,
so that it can be written again. References to a parent and to mixins are texts; what they stand
for depends on the file and is looked up only when it is needed.
-/

namespace ClassFlattening

/-- A field of a struct: name, type and perhaps a default value. -/
structure Field where
  name : Text
  type : Text
  value : Option Text := none
deriving DecidableEq, Repr

/-- A function of a class. The signature is the text in front of the body's brace. A method is
static if its first parameter is not `self`. -/
structure Method where
  name : Text
  source : Text
  signature : Text
  returnType : Text
  isStatic : Bool
deriving DecidableEq, Repr

/-- Whether a property may be written. -/
inductive Access where
  | readOnly
  | readWrite
deriving DecidableEq, Repr

/-- A property of a class: a field with accessors. -/
structure Property where
  name : Text
  type : Text
  value : Option Text := none
  access : Access := .readWrite
deriving DecidableEq, Repr

/-- A constant nested in a class, kept as it was written. -/
structure Constant where
  name : Text
  source : Text
deriving DecidableEq, Repr

/-- A range of byte offsets, the end excluded. -/
structure Span where
  start : Nat
  stop : Nat
deriving DecidableEq, Repr

/-- A class as declared. The visibility is the text in front of `const`, the span that of the whole
declaration in its file. -/
structure Class where
  name : Text
  parent : Option Text := none
  mixins : List Text := []
  fields : List Field := []
  methods : List Method := []
  properties : List Property := []
  constants : List Constant := []
  visibility : Text := []
  span : Span := ⟨0, 0⟩
  file : Text := []
deriving DecidableEq, Repr

namespace Method

/-- Whether instances are made by this method. -/
def isConstructor (m : Method) : Bool := m.name == "init".toList

/-- Whether instances are disposed of by this method. -/
def isDestructor (m : Method) : Bool := m.name == "deinit".toList

end Method

/-- The field that holds the value of a property. -/
def Property.field (p : Property) : Field := ⟨p.name, p.type, p.value⟩

/-- Whether a property has a setter. -/
def Property.isWritable (p : Property) : Bool := p.access == .readWrite

namespace Class

/-- The first method with the name. -/
def method? (c : Class) (name : Text) : Option Method :=
  c.methods.find? fun m => m.name == name

/-- The fields of an instance: those behind the properties, then the plain ones. -/
def layout (c : Class) : List Field := c.properties.map Property.field ++ c.fields

end Class

end ClassFlattening
