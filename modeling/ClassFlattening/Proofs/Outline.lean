import ClassFlattening.Proofs.Listing
import ClassFlattening.Declaration

/-!
# Classes as they are written

An outline is what the author of a class writes: a name, perhaps a parent, mixins, and the members of the
class in any order. It has a text, the declaration as it is printed, and it stands for a class. An
outline is canonical if its texts can be told from the punctuation around them; it is unmistakable if no
text looks like something else to a search that does not read the text as code.
-/

namespace ClassFlattening

namespace Text

/-- A character that ends nothing. -/
def never : Char → Bool := fun _ => false

/-- Whether a character ends the text of a type. -/
def endsType (c : Char) : Bool := c == ',' || c == '='

/-- Whether a character ends a reference. -/
def endsReference (c : Char) : Bool := c == ';' || c == ','

/-- Every pair of slashes stands behind a double quote. -/
def SlashesQuoted (t : Text) : Prop := ∀ cut ∈ t.cutAtText? "//".toList, '"' ∈ cut.before

instance (t : Text) : Decidable t.SlashesQuoted := inferInstanceAs (Decidable (∀ _ ∈ _, _))

/-- A text whose only braces outside other brackets are those of inline error sets. -/
inductive ErrorSetsOnly : Text → Prop
  | plain {t : Text} (ht : t.Balanced (· == '{')) : ErrorSetsOnly t
  | errorSet {front gap names rest : Text} (hfront : front.Balanced (· == '{'))
      (hword : ∀ c ∈ front.getLast?, isIdentChar c = false) (hgap : gap.allBlank = true)
      (hnames : names.Balanced never) (hrest : ErrorSetsOnly rest) :
      ErrorSetsOnly (front ++ "error".toList ++ gap ++ '{' :: names ++ '}' :: rest)

end Text

open Text

/-- The names that a field or a constant cannot have: they qualify a declaration, bind a name or stand
for a part of the class. -/
def reservedNames : List Text :=
  ["pub".toList, "inline".toList, "export".toList, "const".toList, "var".toList, "extends".toList,
    "mixins".toList, "properties".toList]

/-- A value as it is written behind what it is assigned to. -/
def assigned : Option Text → Text
  | none => []
  | some value => " = ".toList ++ value

/-- A type as it is written behind a name. -/
def typed : Option Text → Text
  | none => []
  | some type => ": ".toList ++ type

/-- The text of a visibility. -/
def visibility (isPublic : Bool) : Text := if isPublic then "pub ".toList else []

/-- The start of a statement that binds a name. -/
def binding (isPublic : Bool) (name : Text) : Text := visibility isPublic ++ ("const ".toList ++ name)

/-- A statement that binds a name, up to its semicolon. -/
def bound (isPublic : Bool) (name : Text) (type : Option Text) (value : Text) : Text :=
  binding isPublic name ++ (typed type ++ (" = ".toList ++ value))

/-- A list with a blank at either end. -/
def spaced (parts : List Text) : Text := [' '] ++ listed parts ++ [' ']

/-- A list in braces. -/
def braced (parts : List Text) : Text := '.' :: ('{' :: spaced parts ++ ['}'])

/-- A value with its label in a list in braces. -/
def labelled (label value : Text) : Text := '.' :: (label ++ (" = ".toList ++ value))

/-- The text of a field up to its comma. -/
def Field.element (f : Field) : Text := f.name ++ (": ".toList ++ (f.type ++ assigned f.value))

/-- A field as it is written. -/
def Field.text (f : Field) : Text := f.element ++ [',']

/-- A property as it is written. Without an access it may be read and written. -/
structure PropertyLine where
  name : Text
  type : Text
  access : Option Access := none
  value : Option Text := none
deriving DecidableEq, Repr

/-- The text of an access. -/
def Access.text : Access → Text
  | .readOnly => ".read_only".toList
  | .readWrite => ".read_write".toList

namespace PropertyLine

/-- The options of a property. -/
def options (p : PropertyLine) : List Text :=
  labelled "type".toList p.type ::
    ((p.access.map fun access => labelled "access".toList access.text).toList ++
      (p.value.map fun value => labelled "default".toList value).toList)

/-- The text of a property. -/
def text (p : PropertyLine) : Text := labelled p.name (braced p.options)

/-- The property that is written. -/
def property (p : PropertyLine) : Property := ⟨p.name, p.type, p.value, p.access.getD .readWrite⟩

/-- The texts of a property can be told from its punctuation. -/
structure Canonical (p : PropertyLine) : Prop where
  name : isIdentifier p.name = true
  type : p.type.Writable (· == ',')
  value : ∀ value ∈ p.value, value.Writable (· == ',')

end PropertyLine

/-- A constant as it is written. -/
structure ConstantLine where
  isPublic : Bool
  name : Text
  type : Option Text
  value : Text
deriving DecidableEq, Repr

namespace ConstantLine

/-- The text of a constant. -/
def text (k : ConstantLine) : Text := bound k.isPublic k.name k.type k.value ++ [';']

/-- The texts of a constant can be told from its punctuation. -/
structure Canonical (k : ConstantLine) : Prop where
  name : isIdentifier k.name = true
  notReserved : k.name ∉ reservedNames
  type : ∀ type ∈ k.type, type.Writable (· == ';')
  value : k.value.Writable (· == ';')

end ConstantLine

/-- A function as it is written. -/
structure MethodLine where
  isPublic : Bool
  name : Text
  params : List Text
  result : Text
  body : Text
deriving DecidableEq, Repr

namespace MethodLine

/-- A function up to the brace of its body. -/
def signature (m : MethodLine) : Text :=
  visibility m.isPublic ++ ("fn ".toList ++ m.name) ++ ('(' :: listed m.params ++ [')']) ++
    (' ' :: m.result)

/-- The text of a function. -/
def text (m : MethodLine) : Text := m.signature ++ (' ' :: ('{' :: m.body ++ ['}']))

/-- Whether a parameter is called `self`. -/
def namesSelf (param : Text) : Bool :=
  (param.cutAtFirst? (· == ':')).any fun cut => cut.before.trim == "self".toList

/-- The method that is written. -/
def method (m : MethodLine) : Method where
  name := m.name
  source := m.text
  signature := m.signature
  returnType := m.result
  isStatic := !m.params.head?.any namesSelf

/-- The texts of a function can be told from its punctuation. -/
structure Canonical (m : MethodLine) : Prop where
  name : isIdentifier m.name = true
  params : ∀ param ∈ m.params, param.Writable (· == ',')
  result_ne_nil : m.result ≠ []
  result_trim : m.result.trim = m.result
  result : ErrorSetsOnly m.result
  body : m.body.Balanced never

end MethodLine

/-- A member of a class as it is written, references to other classes apart. -/
inductive MemberLine where
  | field (field : Field)
  | properties (properties : List PropertyLine)
  | constant (constant : ConstantLine)
  | method (method : MethodLine)
deriving DecidableEq, Repr

namespace MemberLine

/-- The text of a member. -/
def text : MemberLine → Text
  | field f => f.text
  | properties ps => bound true "properties".toList none (braced (ps.map PropertyLine.text)) ++ [';']
  | constant k => k.text
  | method m => m.text

/-- The texts of a member can be told from its punctuation. -/
def Canonical : MemberLine → Prop
  | field f =>
    isIdentifier f.name = true ∧ f.name ∉ reservedNames ∧ f.type.Writable endsType ∧
      ∀ value ∈ f.value, value.Writable (· == ',')
  | properties ps => ∀ p ∈ ps, p.Canonical
  | constant k => k.Canonical
  | method m => m.Canonical

/-- No text of a member looks like something else: the slashes in a field do not start a comment, and
the word in front of a function's body does not start an error set. A quote anywhere in front of its slashes
keeps a field whole. -/
def Unmistakable : MemberLine → Prop
  | field f => f.element.SlashesQuoted
  | method m => endsWithWord m.result.reverse "error".toList = false
  | _ => True

/-- The field that a member is. -/
def field? : MemberLine → Option Field
  | field f => some f
  | _ => none

/-- The properties that a member lists. -/
def properties? : MemberLine → Option (List Property)
  | properties ps => some (ps.map PropertyLine.property)
  | _ => none

/-- The constant that a member is. -/
def constant? : MemberLine → Option Constant
  | constant k => some ⟨k.name, k.text⟩
  | _ => none

/-- The method that a member is. -/
def method? : MemberLine → Option Method
  | method m => some m.method
  | _ => none

end MemberLine

/-- A class as it is written. -/
structure Outline where
  name : Text
  parent : Option Text := none
  mixins : List Text := []
  entries : List MemberLine := []
deriving DecidableEq, Repr

namespace Outline

/-- The text of a reference to a parent. -/
def parentText (reference : Text) : Text := bound true "extends".toList none reference ++ [';']

/-- The text of a list of mixins. -/
def mixinsText (references : List Text) : Text :=
  bound true "mixins".toList none (braced references) ++ [';']

/-- The text of every member. -/
def memberTexts (o : Outline) : List Text :=
  (o.parent.map parentText).toList ++ (if o.mixins = [] then [] else [mixinsText o.mixins]) ++
    o.entries.map MemberLine.text

/-- The texts of members on lines of their own. -/
def linesOf (texts : List Text) : Text := texts.flatMap fun t => "    ".toList ++ (t ++ ['\n'])

/-- The declaration of a class. -/
def text (o : Outline) : Text :=
  binding true o.name ++ (" = ".toList ++ (marker ++ ("struct ".toList ++
    ('{' :: ('\n' :: linesOf o.memberTexts) ++ ('}' :: terminator)))))

/-- The class that is declared. -/
def declared (o : Outline) (file : Text) : Class where
  name := o.name
  parent := o.parent
  mixins := o.mixins
  fields := o.entries.filterMap MemberLine.field?
  methods := o.entries.filterMap MemberLine.method?
  properties := (o.entries.filterMap MemberLine.properties?).flatten
  constants := o.entries.filterMap MemberLine.constant?
  visibility := "pub ".toList
  span := ⟨0, o.text.size⟩
  file := file

/-- The texts of a class can be told from its punctuation. -/
structure Canonical (o : Outline) : Prop where
  name : isIdentifier o.name = true
  parent : ∀ reference ∈ o.parent, reference.Writable endsReference
  mixins : ∀ reference ∈ o.mixins, reference.Writable (· == ',')
  entries : ∀ entry ∈ o.entries, entry.Canonical

/-- No text of a class looks like something else: the name is not the word that binds it, the reference
to the parent is on one line, and no slashes in that reference or in the list of mixins start a comment. -/
structure Unmistakable (o : Outline) : Prop where
  name : o.name ≠ "const".toList
  parent : ∀ reference ∈ o.parent, reference.Balanced (· == '\n') ∧ reference.SlashesQuoted
  mixins : (braced o.mixins).SlashesQuoted
  entries : ∀ entry ∈ o.entries, entry.Unmistakable

end Outline

end ClassFlattening
