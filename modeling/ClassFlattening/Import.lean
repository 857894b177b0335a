import ClassFlattening.Identifier
import ClassFlattening.SourcePath
import ClassFlattening.Text.Word

/-!
# Imports

An import call names a file in quotes; a constant that is bound to the call is an alias for the
file. Calls are found from the start of a source to its end, each behind the one before. A call of
the runtime module and the standard library are no aliases.
-/

namespace ClassFlattening

/-- The module that provides the class marker. -/
def runtimeModule : Text := "zoop".toList

/-- Modules that are no files of the source tree. -/
def reservedModules : List Text := ["std".toList, runtimeModule]

/-- Reads an import call at the start of a text and returns the imported path and the text behind
the call. -/
def readImport? (t : Text) : Option (Text × Text) := do
  let opened ← t.dropLead? "@import(".toList
  let quoted ← opened.trimStart.dropLead? ['"']
  let path ← quoted.cutAtFirst? (· == '"')
  let rest ← path.behind.trimStart.dropLead? [')']
  return (path.before, rest)

/-- Cuts in front of the first import call. -/
def cutAtImport? (t : Text) : Option Cut :=
  Text.cutWhere
    (fun () c rest =>
      if c == '@' && (readImport? (c :: rest)).isSome then .stop else .pass ())
    () t

/-- The text behind an import call is shorter. -/
theorem length_lt_of_readImport? {t path rest : Text} (h : readImport? t = some (path, rest)) :
    rest.length < t.length := by
  simp only [readImport?, Option.bind_eq_bind, Option.bind_eq_some_iff] at h
  obtain ⟨opened, hopened, quoted, hquoted, cut, hcut, behind, hbehind, h⟩ := h
  cases h
  have h₁ := Text.length_of_dropLead? hopened
  have h₂ := Text.length_of_dropLead? hquoted
  have h₃ := Text.length_behind_lt_of_cutWhere hcut
  have h₄ := Text.length_of_dropLead? hbehind
  have h₅ := Text.length_trimStart_le opened
  have h₆ := Text.length_trimStart_le cut.behind
  simp at h₂ h₄
  omega

/-- An import call: the path, and the text in front of the call up to the call before it. -/
structure ImportCall where
  lead : Text
  path : Text
deriving DecidableEq, Repr

/-- The import calls of a text, in order. -/
def importCalls (t : Text) : List ImportCall :=
  match _found : cutAtImport? t with
  | none => []
  | some cut =>
    match _read : readImport? cut.after with
    | none => []
    | some (path, rest) => ⟨cut.before, path⟩ :: importCalls rest
termination_by t.length
decreasing_by
  have h₁ := length_lt_of_readImport? _read
  have h₂ := Text.length_after_le (Text.whole_of_cutWhere _ _found)
  omega

/-- Whether a source imports the runtime module. -/
def hasRuntimeImport (source : Text) : Bool :=
  (importCalls source).any fun call => call.path == runtimeModule

/-- Whether a character may stand between the words of a binding, all on one line. -/
def isGap (c : Char) : Bool := isBlank c && c != '\n'

/-- The name that the last line of a text binds, if the line ends with `const NAME =`. The text is
given last character first. Neither a bracket nor a newline can be part of the binding, so it does
not matter how much of the line there is in front of it. -/
def boundName? (passed : Text) : Option Text := do
  let bound ← Text.dropLead? (passed.dropWhile isGap) ['=']
  let named := bound.dropWhile isGap
  let name : Text := named.takeWhile fun c => c.isAlphanum || c == '_'
  let gap := named.drop name.length
  let start ← Text.dropLead? (gap.dropWhile isGap) "const".toList.reverse
  match name.reverse with
  | [] => none
  | c :: rest =>
    if c.isDigit || !gap.head?.any isGap || start.head?.any isWordChar then none
    else some (c :: rest)

/-- Aliases and the paths they stand for, in the order in which they were first bound. -/
abbrev Aliases := List (Text × Text)

namespace Aliases

/-- Binds an alias. One that is bound already keeps its place and takes the new path. -/
def bind (aliases : Aliases) (name path : Text) : Aliases :=
  match aliases with
  | [] => [(name, path)]
  | (n, p) :: rest => if n = name then (n, path) :: rest else (n, p) :: bind rest name path

/-- The path of an alias. -/
def path? (aliases : Aliases) (name : Text) : Option Text :=
  (aliases.find? fun entry => entry.1 == name).map Prod.snd

/-- The last binding of an alias is the one that holds. -/
theorem path?_bind (aliases : Aliases) (name path other : Text) :
    (aliases.bind name path).path? other = if other = name then some path else aliases.path? other := by
  induction aliases with
  | nil => by_cases h : other = name <;> grind [bind, path?]
  | cons entry rest ih =>
    obtain ⟨n, p⟩ := entry
    simp only [path?] at ih
    by_cases hn : n = name <;> by_cases ho : other = name <;>
      grind [bind, path?]

end Aliases

/-- The aliases that the imports of a file bind. -/
def importAliases (file source : Text) : Aliases :=
  (importCalls source).foldl
    (fun aliases call =>
      if call.path ∈ reservedModules then aliases
      else
        match boundName? call.lead.reverse with
        | some name => aliases.bind name (SourcePath.resolve file call.path)
        | none => aliases)
    []

end ClassFlattening
