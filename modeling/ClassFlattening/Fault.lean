import ClassFlattening.Lineage
import ClassFlattening.Text.Quoted

/-!
# Faults

What can stop a generation, and how it is worded. A fault that comes from the file system names the
path alone; its wording is not ours.
-/

namespace ClassFlattening

/-- The most bytes that a signature may have to be copied into a descendant. -/
def signatureLimit : Nat := 1024

/-- The most bytes that a source file may have. -/
def fileSizeLimit : Nat := 5 * 1024 * 1024

/-- Why a generation stops. -/
inductive Fault where
  | lineage (fault : LineageFault)
  | invalidTypeName (name : Text)
  | signatureTooLong (method : Text) (size : Nat)
  | fileTooLarge (path : Text) (size : Nat)
  | fileNotRegistered (path : Text)
  | malformedDeclaration (file : Text) (offset : Nat)
  | missingSource (path : Text)
  /-- The file system refuses an operation on the path. -/
  | refused (path : Text)
  /-- The span of a class is no part of its file behind the spans in front of it. -/
  | misplacedSpan (span : Span)
deriving DecidableEq, Repr

/-- The wording of a fault, if it is ours. -/
def Fault.message? : Fault → Option Text
  | lineage fault => some fault.message
  | invalidTypeName name => some ("Invalid type name: ".toList ++ name.quoted)
  | signatureTooLong method size =>
    some ("Method signature too long: ".toList ++ method ++ " (".toList ++ Text.decimal size ++
      " bytes, limit ".toList ++ Text.decimal signatureLimit ++ ")".toList)
  | fileTooLarge path size =>
    some ("File too large: ".toList ++ path ++ " (".toList ++ Text.decimal size ++
      " bytes, limit ".toList ++ Text.decimal fileSizeLimit ++ ")".toList)
  | fileNotRegistered path => some ("File not registered: ".toList ++ path)
  | malformedDeclaration file offset =>
    some ("Malformed declaration in ".toList ++ file ++ " at byte ".toList ++ Text.decimal offset)
  | missingSource path => some ("Source directory does not exist: ".toList ++ path)
  | refused _ => none
  | misplacedSpan _ => none

end ClassFlattening
