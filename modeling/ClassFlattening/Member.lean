import ClassFlattening.Bracket
import ClassFlattening.Class

/-!
# Members of a class body

A class body is read member by member. What starts at the cursor is told by its first words: a
comment, a function, a block that is not part of the class, a constant or else a field. Each kind
ends by a rule of its own, and what makes no sense is passed over to the end of its line, so that a
bad member is missing from the class and harms nothing else.

`Member.read` reads one member and returns it with the text behind it.
-/

namespace ClassFlattening

/-- One member of a class body. -/
inductive Member where
  | method (method : Method)
  | properties (properties : List Property)
  | parent (reference : Text)
  | mixins (references : List Text)
  | constant (constant : Constant)
  | field (field : Field)
  /-- Text that adds nothing to the class. -/
  | nothing
deriving DecidableEq, Repr

namespace Member

/-- The function that a member is. -/
def method? : Member → Option Method
  | method m => some m
  | _ => none

/-- The properties that a member lists. -/
def properties? : Member → Option (List Property)
  | properties ps => some ps
  | _ => none

/-- The parent that a member names. -/
def parent? : Member → Option Text
  | parent reference => some reference
  | _ => none

/-- The mixins that a member names. -/
def mixins? : Member → Option (List Text)
  | mixins references => some references
  | _ => none

/-- The constant that a member is. -/
def constant? : Member → Option Constant
  | constant k => some k
  | _ => none

/-- The field that a member is. -/
def field? : Member → Option Field
  | field f => some f
  | _ => none

end Member

namespace Text

/-- The text without a comment at its end; a comment behind a quote is left alone. -/
def dropTrailingComment (t : Text) : Text :=
  match t.cutAtText? "//".toList with
  | some cut => if '"' ∈ cut.before then t else cut.before
  | none => t

/-- Cuts in front of the first occurrence of a character on the first line. -/
def cutOnLine? (t : Text) (c : Char) : Option Cut :=
  cutWhere (fun () d _ => if d == c then .stop else if d == '\n' then .fail else .pass ()) () t

/-- The text without the given characters in front. -/
def dropLeading (t : Text) (c : Char) : Text := t.dropWhile (· == c)

end Text

open Text

/-- The references of a list in braces, or of a text without braces. -/
def readReferences (t : Text) : List Text :=
  let inner : Text :=
    match t.cutAtFirst? (· == '{') with
    | some cut =>
      if '}' ∈ cut.behind then (cut.behind.cutAfterLast (· == '}')).before.dropLast else t
    | none => t
  inner.splitTopLevel ','

/-- Whether the first parameter is called `self` and has a type. -/
def firstParamIsSelf (params : Text) : Bool :=
  match (params.splitTopLevel ',').head? with
  | some first =>
    match first.dropLead? "self".toList with
    | some rest => rest.trimStart.head? == some ':'
    | none => false
  | none => false

/-- The text between the first brace and the one that closes it. -/
def bracedText? (t : Text) : Option Text := do
  let opened ← t.cutAtFirst? (· == '{')
  let closed ← opened.after.cutAtMatching? '{' '}'
  return closed.before.tail

/-- One option of a property, `.key = value`, applied to what the earlier options gave. -/
def Property.withOption (p : Property) (entry : Text) : Property :=
  match entry.cutAtFirst? (· == '=') with
  | none => p
  | some cut =>
    let key := cut.before.trim.dropLeading '.'
    let value := cut.behind.trim
    if key = "type".toList then { p with type := value }
    else if key = "access".toList ∧ value.dropLeading '.' = "read_only".toList then
      { p with access := .readOnly }
    else if key = "default".toList then { p with value := some value }
    else p

/-- Reads `.name = .{ .type = T, .access = .read_only, .default = V }`. The type is required. -/
def readProperty? (entry : Text) : Option Property := do
  let cut ← entry.cutAtFirst? (· == '=')
  let name := (cut.before.trim.dropLeading '.').trim
  if isIdentifier name then
    let options ← bracedText? cut.behind.trim
    let property := (options.splitTopLevel ',').foldl Property.withOption ⟨name, [], none, .readWrite⟩
    if property.type.isEmpty then none else some property
  else none

/-- Reads the value of a block of properties. -/
def readProperties (value : Text) : List Property :=
  match bracedText? value with
  | some entries => (entries.splitTopLevel ',').filterMap readProperty?
  | none => []

/-- The name that a binding is about: what is left of its type annotation, without qualifiers. -/
def bindingName (binding : Text) : Text :=
  trim ((binding.dropQualifiers ["pub".toList, "const".toList, "var".toList]).takeWhile (· != ':'))

/-- Reads a function, qualifiers included, up to the brace that closes its body. -/
def readMethod? (t : Text) : Option (Method × Text) := do
  let qualified ← t.cutAtWord? "fn".toList
  let named ← qualified.after.cutAtFirst? (· == '(')
  let name := trim (named.before.drop 2)
  if isIdentifier name then
    let params ← named.after.cutAtMatching? '(' ')'
    let head := qualified.before ++ named.before ++ params.through
    let result ← params.behind.cutAtBodyOpen? head.reverse
    let body ← result.after.cutAtMatching? '{' '}'
    let method : Method :=
      { name
        source := head ++ result.before ++ body.through
        signature := (head ++ result.before).trim
        returnType := result.before.trim
        isStatic := !firstParamIsSelf params.before.tail }
    return (method, body.behind)
  else none

/-- The text behind a function is shorter. -/
theorem length_lt_of_readMethod? {t rest : Text} {m : Method}
    (h : readMethod? t = some (m, rest)) : rest.length < t.length := by
  simp only [readMethod?, Option.bind_eq_bind, Option.bind_eq_some_iff] at h
  obtain ⟨qualified, hqualified, named, hnamed, h⟩ := h
  split at h
  · simp only [Option.bind_eq_some_iff] at h
    obtain ⟨params, hparams, result, hresult, body, hbody, h⟩ := h
    cases h
    have h₁ := length_after_le (whole_of_cutWhere _ hqualified)
    have h₂ := length_after_le (whole_of_cutWhere _ hnamed)
    have h₃ := length_behind_lt_of_cutAtMatching? hparams
    have h₄ := length_after_le (whole_of_cutAtBodyOpen? hresult)
    have h₅ := length_behind_lt_of_cutAtMatching? hbody
    omega
  · simp at h

/-- The value of a binding and the text behind it. The value ends at a semicolon, a comma or the
line's end outside all brackets; without one it is all there is. -/
def readBound (t : Text) : Text × Text :=
  match t.cutAtTopLevel? (fun c => c == ';' || c == ',' || c == '\n') with
  | some ended => (ended.before, ended.behind)
  | none => (t, [])

theorem length_readBound_le (t : Text) : (readBound t).2.length ≤ t.length := by
  rw [readBound]
  split
  · next hended => exact Nat.le_of_lt (length_behind_lt_of_cutInCode hended)
  · exact Nat.zero_le _

/-- Reads the binding that names the parent or the mixins. -/
def readReferenceBinding? (t : Text) : Option (Member × Text) := do
  let cut ← t.cutOnLine? '='
  let name := bindingName cut.before
  if name = "extends".toList ∨ name = "mixins".toList then
    let (bound, rest) := readBound cut.behind
    let value := bound.dropTrailingComment.trim
    if name = "mixins".toList then return (.mixins (readReferences value), rest)
    else if value.isEmpty then return (.nothing, rest)
    else return (.parent value, rest)
  else none

/-- The text behind a binding is shorter. -/
theorem length_lt_of_readReferenceBinding? {t rest : Text} {member : Member}
    (h : readReferenceBinding? t = some (member, rest)) : rest.length < t.length := by
  simp only [readReferenceBinding?, Option.bind_eq_bind, Option.bind_eq_some_iff] at h
  obtain ⟨cut, hcut, h⟩ := h
  have hlt :=
    Nat.lt_of_le_of_lt (length_readBound_le cut.behind) (length_behind_lt_of_cutWhere hcut)
  split at h
  · suffices rest = (readBound cut.behind).2 by rw [this]; exact hlt
    split at h
    · cases h; rfl
    · split at h <;> cases h <;> rfl
  · simp at h

/-- Reads a constant or a variable up to its semicolon. -/
def readConstant (t : Text) : Member × Text :=
  match readReferenceBinding? t with
  | some read => read
  | none =>
    match t.cutAtTopLevel? (· == ';') with
    | none => (.nothing, t.cutLine.after)
    | some statement =>
      match statement.before.cutAtFirst? (· == '=') with
      | none => (.nothing, statement.behind)
      | some cut =>
        let name := bindingName cut.before
        if name = "properties".toList then
          (.properties (readProperties cut.behind.trim), statement.behind)
        else if name.isEmpty then (.nothing, statement.behind)
        else (.constant ⟨name, statement.through⟩, statement.behind)

/-- The member that a field's name, type and default value stand for. Two names are references. -/
def fieldMember (name type : Text) (value : Option Text) : Member :=
  if name = "extends".toList then .parent type
  else if name = "mixins".toList then .mixins (readReferences type)
  else if type.isEmpty then .nothing
  else .field ⟨name, type, value.filter fun v => !v.isEmpty⟩

/-- Reads a field up to its comma, or to the end of the body. -/
def readField (t : Text) : Member × Text :=
  let (element, rest) :=
    match t.cutAtTopLevel? (· == ',') with
    | some cut => (cut.before, cut.behind)
    | none => (t, [])
  let element := element.dropTrailingComment
  match element.cutAtFirst? (· == ':') with
  | none => (.nothing, t.cutLine.after)
  | some cut =>
    let name := cut.before.trim
    if '=' ∈ cut.before ∨ isIdentifier name = false then (.nothing, t.cutLine.after)
    else
      match cut.behind.cutAtTopLevel? (· == '=') with
      | some typed => (fieldMember name typed.before.trim (some typed.behind.trim), rest)
      | none => (fieldMember name cut.behind.trim none, rest)

/-- The text behind the block that opens at the first brace. -/
def dropBlock (t : Text) : Text :=
  match t.cutAtFirst? (· == '{') with
  | some opened =>
    match opened.after.cutAtMatching? '{' '}' with
    | some closed => closed.behind
    | none => []
  | none => t.cutLine.after

/-- Whether a text starts with the keyword and then a block or its title. -/
def startsBlock (t keyword : Text) : Bool :=
  t.leadingWord == keyword &&
    (t.afterLeadingWord.trimStart.head? == some '{' || t.afterLeadingWord.trimStart.head? == some '"')

/-- Reads the member at the start of the text and returns it with the text behind it. -/
def Member.read (t : Text) : Member × Text :=
  let unqualified := t.dropQualifiers ["pub".toList, "inline".toList, "export".toList]
  if "//".toList.isPrefixOf t then (.nothing, t.cutLine.after)
  else if "fn ".toList.isPrefixOf unqualified || "fn\t".toList.isPrefixOf unqualified then
    match readMethod? t with
    | some (m, rest) => (.method m, rest)
    | none => (.nothing, t.cutLine.after)
  else if startsBlock unqualified "comptime".toList || startsBlock unqualified "test".toList then
    (.nothing, dropBlock t)
  else if unqualified.leadingWord == "const".toList || unqualified.leadingWord == "var".toList then
    readConstant t
  else readField t

theorem length_readConstant_lt {t : Text} (h : t ≠ []) : (readConstant t).2.length < t.length := by
  have hline := (length_cutLine_after t).2 h
  simp only [readConstant]
  split
  · next hread => exact length_lt_of_readReferenceBinding? hread
  · split
    · exact hline
    · next hstatement =>
      have := length_behind_lt_of_cutInCode hstatement
      split
      · exact this
      · split
        · exact this
        · split <;> exact this

theorem length_readField_lt {t : Text} (h : t ≠ []) : (readField t).2.length < t.length := by
  have hline := (length_cutLine_after t).2 h
  have hrest : (match t.cutAtTopLevel? (· == ',') with
      | some cut => (cut.before, cut.behind)
      | none => (t, [])).2.length < t.length := by
    split
    · next hcut => exact length_behind_lt_of_cutInCode hcut
    · exact List.length_pos_iff.2 h
  simp only [readField]
  split
  · exact hline
  · split
    · exact hline
    · split <;> exact hrest

theorem length_dropBlock_lt {t : Text} (h : t ≠ []) : (dropBlock t).length < t.length := by
  rw [dropBlock]
  split
  · next opened hopened =>
    have := length_after_le (whole_of_cutWhere _ hopened)
    split
    · next hclosed => exact Nat.lt_of_lt_of_le (length_behind_lt_of_cutAtMatching? hclosed) this
    · exact List.length_pos_iff.2 h
  · exact (length_cutLine_after t).2 h

/-- Every member takes at least one character. -/
theorem Member.length_read_lt {t : Text} (h : t ≠ []) : (Member.read t).2.length < t.length := by
  have hline := (length_cutLine_after t).2 h
  simp only [Member.read]
  split
  · exact hline
  · split
    · split
      · next hmethod => exact length_lt_of_readMethod? hmethod
      · exact hline
    · split
      · exact length_dropBlock_lt h
      · split
        · exact length_readConstant_lt h
        · exact length_readField_lt h

/-- The members of a class body, in order. Blanks between them are passed over. -/
def Member.readAll (body : Text) : List Member :=
  match _text : body.trimStart with
  | [] => []
  | c :: rest =>
    let read := Member.read (c :: rest)
    read.1 :: readAll read.2
termination_by body.length
decreasing_by
  have hread := Member.length_read_lt (List.cons_ne_nil c rest)
  have hle := body.length_trimStart_le
  rw [_text] at hle
  exact Nat.lt_of_lt_of_le hread hle

end ClassFlattening
