import ClassFlattening.Main
import ClassFlattening.Proofs.Checks
import ClassFlattening.Proofs.FlatteningOutcome
import ClassFlattening.Proofs.EmittedLines
import ClassFlattening.Proofs.LineageAgreement
import ClassFlattening.Proofs.LineageOutcome
import ClassFlattening.Proofs.Inheritance
import ClassFlattening.Proofs.MethodSelection
import ClassFlattening.Proofs.ScanSteps
import ClassFlattening.Proofs.Registered
import ClassFlattening.Proofs.SourceLayout
import ClassFlattening.Proofs.RenderedSource
import ClassFlattening.Proofs.Occurrences
import ClassFlattening.Proofs.ScanOutcomes
import ClassFlattening.Proofs.MarkersAccounted
import ClassFlattening.Proofs.ClosedText
import ClassFlattening.Proofs.Nesting
import ClassFlattening.Proofs.Listing
import ClassFlattening.Proofs.Outline
import ClassFlattening.Proofs.ReadingBindings
import ClassFlattening.Proofs.ReadingLists
import ClassFlattening.Proofs.ReadingMethods
import ClassFlattening.Proofs.ReadingClasses
import ClassFlattening.Proofs.ByOffset.Steps
import ClassFlattening.Proofs.ByOffset.Encoding
import ClassFlattening.Proofs.ByOffset.CodeSearch
import ClassFlattening.Proofs.ByOffset.Brackets
import ClassFlattening.Proofs.ByOffset.MatchedBrackets
import ClassFlattening.Proofs.ByOffset.Words
import ClassFlattening.Proofs.ByOffset.Entries
import ClassFlattening.Proofs.ByOffset.Members
import ClassFlattening.Proofs.ByOffset.Declarations
import ClassFlattening.Proofs.ByOffset.Retargeting
import ClassFlattening.Proofs.RenamedRegions
import ClassFlattening.Proofs.RenamedMethods
import ClassFlattening.Proofs.ByOffset.Imports
import ClassFlattening.Proofs.ByOffset.Flattening
import ClassFlattening.Proofs.ByOffset.Rendering
import ClassFlattening.Proofs.FunctionNames
import ClassFlattening.Proofs.Refusals
import ClassFlattening.Proofs.Locality
import ClassFlattening.Proofs.ImportedFiles
import ClassFlattening.Proofs.RegistryHistory
import ClassFlattening.Proofs.GrowingRegistries
import ClassFlattening.Proofs.SurveyedFiles
import ClassFlattening.Proofs.StrictRuns
import ClassFlattening.Proofs.FileTrees
import ClassFlattening.Proofs.WrittenFiles
import ClassFlattening.Proofs.VisitedFiles
import ClassFlattening.Proofs.PlannedFiles
import ClassFlattening.Proofs.GenerationOutcome
import ClassFlattening.Proofs.NormalPaths
import ClassFlattening.Proofs.ConfinedOutput
import ClassFlattening.Proofs.ImportLines
import ClassFlattening.Proofs.CopiedGaps
import ClassFlattening.Proofs.CleanGenerations
import ClassFlattening.Proofs.MarkersInComments
import ClassFlattening.Proofs.PassedText
import ClassFlattening.Proofs.FieldElements
import ClassFlattening.Proofs.WrittenFields
import ClassFlattening.Proofs.RestoredFields
import ClassFlattening.Proofs.RenamedParts
import ClassFlattening.Proofs.ComposedRenamings
import ClassFlattening.Proofs.MemberStarts
import ClassFlattening.Proofs.Remarks
import ClassFlattening.Proofs.JoinedPieces
import ClassFlattening.Proofs.SettledMembers
import ClassFlattening.Proofs.RemarkedMembers
import ClassFlattening.Proofs.RemarkedClasses
import ClassFlattening.Proofs.QuotedTails
import ClassFlattening.Proofs.MaskedLiterals
import ClassFlattening.Proofs.MaskedMembers
import ClassFlattening.Proofs.LiteralBytes
import ClassFlattening.Proofs.LiteralContents
import ClassFlattening.Proofs.AppendedSources
import ClassFlattening.Proofs.ImportBlocks
import ClassFlattening.Proofs.RenamedPlaces
import ClassFlattening.Proofs.RetargetedMethods
import ClassFlattening.Proofs.ByOffset.MemberExtents
import ClassFlattening.Proofs.ByOffset.SelfParameters
