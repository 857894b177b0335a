import ClassFlattening.Bracket
import ClassFlattening.Renaming

/-!
# Retargeting a constructor or destructor

A constructor or destructor of an ancestor speaks of the ancestor by name: in the type of `self`,
perhaps in the return type, and in its body. Copied into a descendant it has to speak of the
descendant. The type of `self` is replaced, so is a return type that names the same type or the
ancestor, and the type found at `self` is renamed in the body.
-/

namespace ClassFlattening

/-- Return types that name no class. -/
def voidTypes : List Text := ["void".toList, "!void".toList, "noreturn".toList]

/-- A function taken apart: through the parenthesis that opens its parameters, the parameters, from
the closing parenthesis to the body, and the body from its brace on. -/
structure Callable where
  head : Text
  params : Text
  result : Text
  body : Text
deriving DecidableEq, Repr

/-- Takes a function apart. -/
def readCallable? (t : Text) : Option Callable := do
  let opened ← t.cutAtFirst? (· == '(')
  let closed ← opened.after.cutAtMatching? '(' ')'
  let result ← closed.behind.cutAtBodyOpen? (opened.before ++ closed.through).reverse
  return ⟨opened.through, closed.before.tail, result.before, result.after⟩

/-- A name in a text, with the text in front of it and behind it. -/
structure Mention where
  before : Text
  name : Text
  after : Text
deriving DecidableEq, Repr

/-- The text with another name in the place of the one mentioned. -/
def Mention.replace (mention : Mention) (name : Text) : Text :=
  mention.before ++ name ++ mention.after

/-- A type without blanks, pointer and optional signs and `const` in front. -/
def dropIndirections (t : Text) : Text :=
  let bare : Text := t.dropWhile fun c => isBlank c || c == '*' || c == '?'
  match _const : bare.dropLead? "const".toList with
  | some (c :: rest) => if isBlank c then dropIndirections (c :: rest) else bare
  | _ => bare
termination_by t.length
decreasing_by
  have hle : bare.length ≤ t.length := (List.dropWhile_sublist _).length_le
  have heq := Text.length_of_dropLead? _const
  simp only [List.length_cons] at heq ⊢
  have : "const".toList.length = 5 := rfl
  omega

/-- The name that a type is about. -/
def typeMention? (t : Text) : Option Mention :=
  let bare := dropIndirections t
  match bare.leadingWord with
  | [] => none
  | c :: rest =>
    if isIdentStart c then
      some ⟨t.take (t.length - bare.length), c :: rest, bare.afterLeadingWord⟩
    else none

/-- The name in the type of `self`, if the first parameter is `self`. -/
def selfMention? (params : Text) : Option Mention := do
  let first := ((params.cutAtTopLevel? (· == ',')).map Cut.before).getD params
  let called ← first.cutAtText? "self".toList
  let typed ← called.after.cutAtFirst? (· == ':')
  if called.before.allBlank && Text.allBlank (typed.before.drop 4) then
    let mention ← typeMention? typed.behind
    return ⟨called.before ++ typed.through ++ mention.before, mention.name,
      mention.after ++ params.drop first.length⟩
  else none

/-- The name in a return type, if it can be that of a class. Of an error union the payload counts. -/
def resultMention? (result : Text) : Option Mention :=
  if result.trim.isEmpty || result.trim ∈ voidTypes then none
  else do
    let payload := result.cutAfterLast (· == '!')
    let mention ← typeMention? payload.after
    if mention.name ∈ voidTypes then none
    else return { mention with before := payload.before ++ mention.before }

/-- A constructor or destructor of an ancestor, speaking of the class of the new name. -/
def retarget (t ancestor name : Text) : Text :=
  match readCallable? t with
  | none => t
  | some f =>
    let self := selfMention? f.params
    let params := (self.map (·.replace name)).getD f.params
    let result :=
      match resultMention? f.result with
      | some mention =>
        if mention.name = ancestor ∨ self.map Mention.name = some mention.name then
          mention.replace name
        else f.result
      | none => f.result
    let body := (self.map fun mention => rename f.body mention.name name).getD f.body
    f.head ++ params ++ ')' :: result ++ body

end ClassFlattening
