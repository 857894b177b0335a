import ClassFlattening.Proofs.ByOffset.Declarations
import ClassFlattening.Proofs.ByOffset.Flattening
import ClassFlattening.Proofs.ByOffset.Imports
import ClassFlattening.Proofs.FlatteningOutcome
import ClassFlattening.Proofs.RenderedSource

/-!
# Taking in and rendering a source by offsets

A file is rendered by slicing its source between the spans of its classes. For arbitrary spans these
slices may be misplaced, but an intake only registers classes that are placed one behind the other, and
then every slice is the gap between two declarations. So whatever the source is, it is taken in and
rendered without a misstep, and the rendering ends with a text or with what is wrong with a class.
-/

namespace ClassFlattening

/-- Rendering a file whose classes are placed fails only for what is wrong with a class. -/
theorem isAboutClass_of_render (settings : Settings) (registry : Registry) {record : FileRecord}
    {slices : List Slice} {tail : Text} (hdeclared : slices.map Slice.declared = record.classes)
    (hplaced : Slice.Placed 0 slices) (hsource : Slice.whole slices ++ tail = record.source) {fault : Fault}
    (h : render settings registry record = .error fault) : fault.isAboutClass = true := by
  obtain ⟨c, -, hc⟩ := exists_generate_of_render settings registry hdeclared hplaced hsource h
  exact Class.isAboutClass_of_generate hc

namespace ByOffset

open Text

/-- Takes in a source: its aliases, and its classes up to the first fault. -/
def register (intake : Intake) (strict : Bool) (file source : Text) :
    Steps (Intake × Option Fault) := do
  let aliases ← importAliases file source
  let findings ← scan file source
  let record : FileRecord := { path := file, aliases, source }
  let (taken, fault) := Intake.ofFindings (intake.registry.register record) strict file findings
  return ({ taken with skipped := intake.skipped ++ taken.skipped }, fault)

/-- Renders a source from an offset on, with the classes whose spans lie behind it, in order. -/
def renderFrom (settings : Settings) (registry : Registry) (path source : Text) (cursor : Nat) :
    List Class → Attempt Text
  | [] => do
    let gap ← sliceFrom source cursor
    return withoutRuntimeImports gap
  | c :: rest => do
    let gap ← slice source cursor c.span.start
    let flat ← generate c settings path registry
    let tail ← renderFrom settings registry path source c.span.stop rest
    return withoutRuntimeImports gap ++ flat ++ tail

/-- The generated text of a file. -/
def render (settings : Settings) (registry : Registry) (record : FileRecord) : Attempt Text := do
  let body ← renderFrom settings registry record.path record.source 0
    (sortBy (fun c d => c.span.start ≤ d.span.start) record.classes)
  return fileHeader ++ body

/-- Taking in a source makes no misstep. -/
theorem register_eq (intake : Intake) (strict : Bool) (file source : Text) :
    register intake strict file source = pure (intake.register strict file source) := by
  rw [register, importAliases_eq, pure_bind, scan_eq]
  rfl

/-- Rendering placed classes makes no misstep: each slice is the gap in front of a class. -/
theorem renderFrom_eq (settings : Settings) (registry : Registry) (path : Text) {front : Text}
    {slices : List Slice} (hplaced : Slice.Placed front.size slices) (tail : Text) {source : Text}
    (hsource : front ++ (Slice.whole slices ++ tail) = source) :
    renderFrom settings registry path source front.size (slices.map Slice.declared) =
      settled (ClassFlattening.renderFrom settings registry path source front.size
        (some (Slice.whole slices ++ tail)) (slices.map Slice.declared)) := by
  induction slices generalizing front with
  | nil =>
    subst hsource
    rw [List.map_nil, renderFrom, Slice.whole_nil, List.nil_append, sliceFrom_append]
    rfl
  | cons s slices ih =>
    have hgap := slice_append front s.gap (s.statement ++ (Slice.whole slices ++ tail))
    have hspan := hplaced.2.1
    have hstop : front.size + s.gap.size + s.statement.size = (front ++ (s.gap ++ s.statement)).size := by
      rw [size_append, size_append, Nat.add_assoc]
    have hnext := hplaced.2.2
    rw [hstop] at hnext
    rw [Slice.whole_cons, List.append_assoc, List.append_assoc] at hsource
    have hrest := ih hnext (by rw [← hsource]; simp only [List.append_assoc])
    rw [Slice.whole_cons, List.map_cons, List.append_assoc, List.append_assoc,
      renderFrom_slice settings registry path source hplaced, renderFrom, hspan]
    dsimp only
    rw [hstop, hrest, generate_eq, ← size_append, ← hsource, hgap]
    simp only [liftM_pure, pure_bind, settled_pure, settled_bind]

/-- Rendering a file whose classes are placed makes no misstep. -/
theorem render_eq (settings : Settings) (registry : Registry) {record : FileRecord}
    {slices : List Slice} {tail : Text} (hdeclared : slices.map Slice.declared = record.classes)
    (hplaced : Slice.Placed 0 slices) (hsource : Slice.whole slices ++ tail = record.source) :
    render settings registry record = settled (ClassFlattening.render settings registry record) := by
  have hfront : Slice.Placed (size []) slices := hplaced
  have hbody := renderFrom_eq settings registry record.path hfront tail hsource
  rw [size_nil, hsource] at hbody
  rw [render, ← hdeclared, hplaced.sortBy_eq, hbody, ClassFlattening.render, ← hdeclared,
    hplaced.sortBy_eq]
  cases ClassFlattening.renderFrom settings registry record.path record.source 0 (some record.source)
    (slices.map Slice.declared) <;> rfl

/-- Whatever the source and the path are, nothing goes wrong on the way from the source to the generated
file: reading the aliases, scanning, taking in and rendering all come to an end without a slice or a byte
out of place and without a count below zero, and give what they should. An intake ends well or with a
malformed declaration, the latter only where declarations are strict. The file is registered either way,
and rendering it, with whatever else is registered, ends well or says what is wrong with a class. -/
theorem register_render_without_misstep (intake : Intake) (strict : Bool) (file source : Text) :
    importAliases file source = pure (ClassFlattening.importAliases file source) ∧
      scan file source = pure (ClassFlattening.scan file source) ∧
      register intake strict file source = pure (intake.register strict file source) ∧
      (∀ fault, (intake.register strict file source).2 = some fault →
        strict = true ∧ ∃ offset, Finding.malformed offset ∈ ClassFlattening.scan file source ∧
          fault = .malformedDeclaration file offset) ∧
      ∃ record, (intake.register strict file source).1.registry.file? file = some record ∧
        ∀ (settings : Settings) (registry : Registry),
          render settings registry record = settled (ClassFlattening.render settings registry record) ∧
            ∀ fault, ClassFlattening.render settings registry record = .error fault →
              fault.isAboutClass = true := by
  obtain ⟨record, slices, tail, hrecord, -, hsource, hdeclared, hplaced, hwhole⟩ :=
    exists_slices_of_register intake strict file source
  rw [← hsource] at hwhole
  refine ⟨importAliases_eq file source, scan_eq file source, register_eq intake strict file source,
    fun _ => Intake.fault_of_register, record, hrecord, fun settings registry => ⟨?_, fun fault => ?_⟩⟩
  · exact render_eq settings registry hdeclared hplaced hwhole
  · exact isAboutClass_of_render settings registry hdeclared hplaced hwhole

end ByOffset

end ClassFlattening
