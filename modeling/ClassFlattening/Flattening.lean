import ClassFlattening.Fault
import ClassFlattening.Retargeting
import ClassFlattening.Settings

/-!
# Flattening

A class is flattened into a plain struct that holds all it inherits. Its fields are those of its
ancestors from the root down, those of its mixins and its own. Its functions are its own, a
constructor and a destructor retargeted from the nearest ancestor that has one, the ordinary
instance methods of its ancestors and then of its mixins, each under a name that is not taken yet,
and the accessors of its properties. Static methods are not handed down and hide nothing.
-/

namespace ClassFlattening

/-- A method and the name of the class that it is copied from. -/
structure Offer where
  donor : Text
  method : Method
deriving DecidableEq, Repr

/-- Whether a method is handed down under its own name, as opposed to constructors and destructors. -/
def Method.isOrdinary (m : Method) : Bool := !m.isConstructor && !m.isDestructor

/-- The instance methods of a class, in order. -/
def Class.offers (c : Class) : List Offer :=
  (c.methods.filter fun m => !m.isStatic).map (⟨c.name, ·⟩)

/-- The offers whose names are not taken, the first one of each name. -/
def firstOfEachName : List Text → List Offer → List Offer
  | _, [] => []
  | taken, offer :: rest =>
    if offer.method.name ∈ taken then firstOfEachName taken rest
    else offer :: firstOfEachName (offer.method.name :: taken) rest

/-- The names of methods. -/
def Offer.names (offers : List Offer) : List Text := offers.map fun offer => offer.method.name

/-- The names of a class's own methods, static ones included. -/
def Class.ownNames (c : Class) : List Text := c.methods.map Method.name

namespace Class

/-- What the ancestors of a class, nearest first, offer under names that it does not use itself. -/
def inheritable (c : Class) (ancestors : List Class) : List Offer :=
  (ancestors.flatMap offers).filter fun offer => offer.method.name ∉ c.ownNames

/-- The constructor and the destructor that a class inherits. -/
def lifecycle (c : Class) (ancestors : List Class) : List Offer :=
  ((c.inheritable ancestors).find? fun offer => offer.method.isConstructor).toList ++
    ((c.inheritable ancestors).find? fun offer => offer.method.isDestructor).toList

/-- The ordinary methods that a class inherits. -/
def inherited (c : Class) (ancestors : List Class) : List Offer :=
  firstOfEachName [] ((c.inheritable ancestors).filter fun offer => offer.method.isOrdinary)

end Class

/-- What each mixin adds to a class in which some names are taken, mixin by mixin. -/
def mixedIn : List Text → List Class → List (Class × List Offer)
  | _, [] => []
  | taken, mixin :: rest =>
    let added := firstOfEachName taken (mixin.offers.filter fun offer => offer.method.isOrdinary)
    (mixin, added) :: mixedIn (taken ++ Offer.names added) rest

/-- What a name or a copied method has to satisfy to be written into generated code. -/
inductive Demand where
  | typeName (name : Text)
  | signature (method : Method)

/-- Whether a demand is met. -/
def Demand.check : Demand → Except Fault Unit
  | typeName name => if isTypeName name then .ok () else .error (.invalidTypeName name)
  | signature m =>
    if m.signature.size ≤ signatureLimit then .ok ()
    else .error (.signatureTooLong m.name m.signature.size)

/-- A function of a flattened class, under its name. -/
structure FlatFunction where
  name : Text
  source : Text
deriving DecidableEq, Repr

/-- The indentation of a struct's members. -/
def indent : Text := "    ".toList

/-- The function that reads a property. -/
def getter (settings : Settings) (c : Class) (p : Property) : FlatFunction where
  name := settings.getterPrefix ++ p.name
  source :=
    "pub inline fn ".toList ++ settings.getterPrefix ++ p.name ++ "(self: *const ".toList ++ c.name ++
      ") ".toList ++ p.type ++ " \x7b\n".toList ++ indent ++ indent ++ "return self.".toList ++
      p.name ++ ";\n".toList ++ indent ++ "\x7d".toList

/-- The function that writes a property. -/
def setter (settings : Settings) (c : Class) (p : Property) : FlatFunction where
  name := settings.setterPrefix ++ p.name
  source :=
    "pub inline fn ".toList ++ settings.setterPrefix ++ p.name ++ "(self: *".toList ++ c.name ++
      ", value: ".toList ++ p.type ++ ") void \x7b\n".toList ++ indent ++ indent ++ "self.".toList ++
      p.name ++ " = value;\n".toList ++ indent ++ "\x7d".toList

/-- The accessors of a property: a getter, and a setter if it may be written. -/
def accessors (settings : Settings) (c : Class) (p : Property) : List FlatFunction :=
  getter settings c p :: if p.isWritable then [setter settings c p] else []

/-- The name under which a copied method stands in a class. A method that is called like its donor is
renamed with it. -/
def Offer.nameIn (offer : Offer) (c : Class) : Text :=
  if offer.method.name = offer.donor then c.name else offer.method.name

/-- A method of an ancestor or a mixin, speaking of the class that it is copied into. -/
def Offer.copied (offer : Offer) (c : Class) : FlatFunction :=
  ⟨offer.nameIn c, rename offer.method.source offer.donor c.name⟩

/-- A constructor or destructor of an ancestor, speaking of the class that it is copied into. -/
def Offer.retargeted (offer : Offer) (c : Class) : FlatFunction :=
  ⟨offer.method.name, retarget offer.method.source offer.donor c.name⟩

/-- A class without references: a struct with all its fields, constants and functions. -/
structure FlatStruct where
  visibility : Text
  name : Text
  fields : List Field
  constants : List Constant
  functions : List FlatFunction
deriving DecidableEq, Repr

/-- The line of a field. -/
def Field.line (f : Field) : Text :=
  match f.value with
  | some value =>
    indent ++ f.name ++ ": ".toList ++ f.type ++ " = ".toList ++ value ++ ",\n".toList
  | none => indent ++ f.name ++ ": ".toList ++ f.type ++ ",\n".toList

/-- The text of a flattened class. -/
def FlatStruct.text (s : FlatStruct) : Text :=
  s.visibility ++ "const ".toList ++ s.name ++ " = struct \x7b\n".toList ++
    s.fields.flatMap Field.line ++
    (if s.constants.isEmpty then []
      else '\n' :: s.constants.flatMap fun k => indent ++ k.source ++ ['\n']) ++
    (s.functions.flatMap fun f => '\n' :: indent ++ f.source ++ ['\n']) ++
    "\x7d;".toList

namespace Class

/-- The demands on the copies that a class takes, in the order in which they are looked at. -/
def demands (c : Class) (ancestors mixins : List Class) : List Demand :=
  (c.lifecycle ancestors).map (fun offer => .signature offer.method) ++
    (c.inherited ancestors).flatMap
      (fun offer => [.signature offer.method, .typeName offer.donor]) ++
    (mixedIn (c.ownNames ++ Offer.names (c.inherited ancestors)) mixins).flatMap
      (fun (mixin, added) =>
        .typeName mixin.name :: added.map fun offer => .signature offer.method)

/-- The flattened class, given its ancestors, nearest first, and its mixins. -/
def flatStruct (c : Class) (settings : Settings) (ancestors mixins : List Class) : FlatStruct where
  visibility := c.visibility
  name := c.name
  fields := ancestors.reverse.flatMap layout ++ mixins.flatMap layout ++ c.layout
  constants := c.constants
  functions :=
    c.methods.map (fun m => ⟨m.name, m.source⟩) ++
      (c.lifecycle ancestors).map (·.retargeted c) ++
      (c.inherited ancestors).map (·.copied c) ++
      (mixedIn (c.ownNames ++ Offer.names (c.inherited ancestors)) mixins).flatMap
        (fun (_, added) => added.map (·.copied c)) ++
      c.properties.flatMap (accessors settings c)

/-- The mixins of a class whose references lead somewhere from a file. -/
def resolvedMixins (c : Class) (registry : Registry) (file : Text) : List Class :=
  c.mixins.filterMap fun reference => registry.resolve? reference file

/-- Flattens a class whose mixins are looked up from a file. -/
def flatten (c : Class) (settings : Settings) (file : Text) (registry : Registry) :
    Except Fault FlatStruct := do
  (Demand.typeName c.name).check
  let ancestors ← (registry.ancestors c).mapError Fault.lineage
  let mixins := c.resolvedMixins registry file
  (c.demands ancestors mixins).forM Demand.check
  return c.flatStruct settings ancestors mixins

/-- The text of a flattened class. -/
def generate (c : Class) (settings : Settings) (file : Text) (registry : Registry) :
    Except Fault Text :=
  (c.flatten settings file registry).map FlatStruct.text

end Class

end ClassFlattening
