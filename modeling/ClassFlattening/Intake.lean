import ClassFlattening.Declaration
import ClassFlattening.Fault

/-!
# Taking in sources

A source is taken in by registering its file and then its classes one by one. A declaration that
cannot be read is noted, or stops the intake where declarations are strict; what was registered
before it stays.
-/

namespace ClassFlattening

/-- A declaration that could not be read. -/
structure SkippedDeclaration where
  file : Text
  offset : Nat
deriving DecidableEq, Repr

/-- The registry filled so far, and what was passed over on the way. -/
structure Intake where
  registry : Registry := {}
  skipped : List SkippedDeclaration := []
deriving DecidableEq, Repr

/-- Adds a class to the file at a path. If no file is registered there, the registry stays as it is. -/
def Registry.addClass (registry : Registry) (path : Text) (c : Class) : Registry × Option Fault :=
  match registry.file? path with
  | none => (registry, some (.fileNotRegistered path))
  | some record => ((registry.internClass c).register (record.add c), none)

namespace Intake

/-- Adds a class to a registered file. -/
def addClass (intake : Intake) (file : Text) (c : Class) : Except Fault Intake :=
  match intake.registry.addClass file c with
  | (registry, none) => .ok { intake with registry }
  | (_, some fault) => .error fault

/-- Takes the findings of a registered file into a registry up to the first fault. Only what these
findings passed over is noted. -/
def ofFindings (registry : Registry) (strict : Bool) (file : Text) :
    List Finding → Intake × Option Fault
  | [] => ({ registry }, none)
  | .declared c :: rest =>
    match registry.addClass file c with
    | (registry, none) => ofFindings registry strict file rest
    | (registry, some fault) => ({ registry }, some fault)
  | .malformed offset :: rest =>
    if strict then ({ registry }, some (.malformedDeclaration file offset))
    else
      let (intake, fault) := ofFindings registry strict file rest
      ({ intake with skipped := ⟨file, offset⟩ :: intake.skipped }, fault)

/-- Takes in a source: its aliases, and its classes up to the first fault. -/
def register (intake : Intake) (strict : Bool) (file source : Text) : Intake × Option Fault :=
  let record : FileRecord := { path := file, aliases := importAliases file source, source }
  let (taken, fault) :=
    ofFindings (intake.registry.register record) strict file (scan file source)
  ({ taken with skipped := intake.skipped ++ taken.skipped }, fault)

end Intake

end ClassFlattening
