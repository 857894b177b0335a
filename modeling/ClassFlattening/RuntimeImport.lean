import ClassFlattening.Declaration
import ClassFlattening.Import

/-!
# Leaving out the runtime import

Generated code does not need the runtime module, so every line that imports it is left out. A call
may be broken over several lines; then the block from its first line to its last is left out. Of
several calls that start on one line the last one decides where the block ends.
-/

namespace ClassFlattening

/-- The text behind a call at its start that imports the runtime module. -/
def readRuntimeImport? (t : Text) : Option Text :=
  match readImport? t with
  | some (path, rest) => if path = runtimeModule then some rest else none
  | none => none

/-- The text behind the last call on the first line that imports the runtime module, or what was
found before. -/
def behindRuntimeImport? (found : Option Text) : Text → Option Text
  | [] => found
  | c :: rest =>
    if c = '\n' then found
    else behindRuntimeImport? (readRuntimeImport? (c :: rest) <|> found) rest

/-- What is found behind a line's last call is shorter than the text. -/
theorem length_lt_of_behindRuntimeImport? {found : Option Text} {t rest : Text}
    (h : behindRuntimeImport? found t = some rest) :
    rest.length < t.length ∨ found = some rest := by
  induction t generalizing found with
  | nil => exact Or.inr h
  | cons c tail ih =>
    rw [behindRuntimeImport?] at h
    split at h
    · exact Or.inr h
    · rcases ih h with hlt | heq
      · exact Or.inl (Nat.lt_succ_of_lt hlt)
      · cases hread : readRuntimeImport? (c :: tail) with
        | none => exact Or.inr (by simpa [hread] using heq)
        | some behind =>
          simp [hread] at heq
          subst heq
          rw [readRuntimeImport?] at hread
          split at hread
          · next himport =>
            split at hread
            · cases hread
              exact Or.inl (length_lt_of_readImport? himport)
            · simp at hread
          · simp at hread

/-- The text without the lines that import the runtime module. -/
def withoutRuntimeImports (t : Text) : Text :=
  if _empty : t = [] then []
  else
    match _found : behindRuntimeImport? none t with
    | some rest => withoutRuntimeImports rest.cutLine.after
    | none => t.cutLine.before ++ withoutRuntimeImports t.cutLine.after
termination_by t.length
decreasing_by
  · have hlt := (length_lt_of_behindRuntimeImport? _found).resolve_right (by simp)
    have hle := (Text.length_cutLine_after rest).1
    omega
  · exact (Text.length_cutLine_after t).2 _empty

/-- Whether a source has anything to generate: a class declaration or an import of the runtime
module. -/
def isClassSource (source : Text) : Bool := source.contains marker || hasRuntimeImport source

end ClassFlattening
