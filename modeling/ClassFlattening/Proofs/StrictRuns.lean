import ClassFlattening.Proofs.SurveyedFiles

/-!
# Strict and lenient generations

Whether declarations are strict matters at one place only: a declaration that cannot be read stops the
intake of its file or is noted. So a strict reading goes along with a lenient one up to the first
declaration that the lenient one notes, and stops there. What is written is the same for both, because
rendering does not ask for strictness. A strict generation therefore succeeds exactly when the lenient one
does and has noted nothing.
-/

namespace ClassFlattening

/-- The settings with declarations strict or not. -/
def Settings.withStrict (settings : Settings) (strict : Bool) : Settings :=
  { settings with strictDeclarations := strict }

@[simp] theorem Settings.strictDeclarations_withStrict (settings : Settings) (strict : Bool) :
    (settings.withStrict strict).strictDeclarations = strict := rfl

@[simp] theorem Settings.accepts_withStrict (settings : Settings) (strict : Bool) (names : Place) :
    (settings.withStrict strict).accepts names = settings.accepts names := rfl

/-- What a strict intake says of a declaration that a lenient one notes. -/
def SkippedDeclaration.fault (skipped : SkippedDeclaration) : Fault :=
  .malformedDeclaration skipped.file skipped.offset

section Rendered

variable (settings : Settings) (strict : Bool) (registry : Registry)

/-- Rendering the rest of a source does not ask whether declarations are strict. -/
theorem renderFrom_withStrict (path source : Text) (cursor : Nat) (behind : Option Text)
    (classes : List Class) :
    renderFrom (settings.withStrict strict) registry path source cursor behind classes =
      renderFrom settings registry path source cursor behind classes := by
  induction classes generalizing cursor behind with
  | nil => rfl
  | cons c rest ih =>
    have hgenerate : c.generate (settings.withStrict strict) path registry =
        c.generate settings path registry := rfl
    rw [renderFrom, renderFrom, hgenerate]
    simp only [ih]

/-- Rendering does not ask whether declarations are strict. -/
theorem render_withStrict (record : FileRecord) :
    render (settings.withStrict strict) registry record = render settings registry record := by
  rw [render, renderFrom_withStrict, ← render]

/-- What is written does not depend on whether declarations are strict. -/
theorem emit_withStrict (survey : Survey) (output : Text) (tree : FileTree) :
    survey.emit (settings.withStrict strict) output tree = survey.emit settings output tree := by
  simp only [Survey.emit, Survey.emissions, render_withStrict]

end Rendered

/-- How a strict reading ends beside a lenient one that had noted some declarations before: both fail,
both give the same with nothing noted since, or the strict one stops at the first declaration that the
lenient one notes. -/
inductive StrictBeside (noted : List SkippedDeclaration) : Except Fault Survey → Except Fault Survey → Prop
  | fails (fault fault' : Fault) : StrictBeside noted (.error fault) (.error fault')
  | agrees (survey : Survey) (h : survey.intake.skipped = noted) :
    StrictBeside noted (.ok survey) (.ok survey)
  | stops (survey : Survey) (first : SkippedDeclaration) (rest : List SkippedDeclaration)
    (h : survey.intake.skipped = noted ++ first :: rest) :
    StrictBeside noted (.ok survey) (.error first.fault)

namespace Intake

/-- A strict intake of findings goes along with a lenient one up to the first malformed declaration. -/
theorem ofFindings_strict {registry : Registry} {file : Text} {record : FileRecord}
    (h : registry.file? file = some record) (findings : List Finding) :
    ((ofFindings registry false file findings).1.skipped = [] ∧
        ofFindings registry true file findings = ofFindings registry false file findings) ∨
      ∃ first rest, (ofFindings registry false file findings).1.skipped = first :: rest ∧
        (ofFindings registry true file findings).2 = some first.fault := by
  induction findings generalizing registry record with
  | nil => exact Or.inl ⟨rfl, rfl⟩
  | cons finding rest ih =>
    cases finding with
    | declared c =>
      obtain ⟨registry', hadd, hfile⟩ := registry.addClass_of_file? h c
      rw [ofFindings, ofFindings, hadd]
      exact ih (by rw [hfile, if_pos rfl])
    | malformed offset => exact Or.inr ⟨⟨file, offset⟩, _, rfl, rfl⟩

/-- A strict intake of a source does what a lenient one does if that notes nothing, and otherwise stops at
the first declaration that is noted. -/
theorem register_strict (intake : Intake) (file source : Text) :
    ((intake.register false file source).1.skipped = intake.skipped ∧
        intake.register true file source = intake.register false file source) ∨
      ∃ first rest, (intake.register false file source).1.skipped = intake.skipped ++ first :: rest ∧
        (intake.register true file source).2 = some first.fault := by
  have hfile := intake.registry.file?_register_self
    { path := file, aliases := importAliases file source, source }
  rcases ofFindings_strict hfile (scan file source) with ⟨hnothing, heq⟩ | ⟨first, rest, hnoted, hfault⟩
  · refine Or.inl ⟨?_, ?_⟩
    · change intake.skipped ++ _ = intake.skipped
      rw [hnothing, List.append_nil]
    · unfold register
      dsimp only
      rw [heq]
  · refine Or.inr ⟨first, rest, ?_, hfault⟩
    change intake.skipped ++ _ = intake.skipped ++ first :: rest
    rw [hnoted]

end Intake

namespace Survey

/-- A strict survey takes in a text as a lenient one does if the lenient one notes nothing in it, and stops
at the first declaration that is noted otherwise. -/
theorem strictBeside_take (survey : Survey) (settings : Settings) (path t : Text) :
    StrictBeside survey.intake.skipped (survey.take (settings.withStrict false) path t)
      (survey.take (settings.withStrict true) path t) := by
  cases hclass : isClassSource t with
  | false =>
    rw [take_of_not_isClassSource _ _ hclass, take_of_not_isClassSource _ _ hclass]
    exact .agrees _ rfl
  | true =>
    unfold take
    dsimp only
    rw [hclass, if_pos rfl, if_pos rfl, Settings.strictDeclarations_withStrict,
      Settings.strictDeclarations_withStrict]
    have hlenient := (survey.intake.register_lenient path t).1
    rcases survey.intake.register_strict path t with ⟨hnothing, heq⟩ | ⟨first, rest, hnoted, hfault⟩
    · rw [heq]
      generalize survey.intake.register false path t = taken at *
      obtain ⟨intake, fault⟩ := taken
      obtain rfl : fault = none := hlenient
      exact .agrees _ hnothing
    · generalize survey.intake.register false path t = taken,
        survey.intake.register true path t = stopped at *
      obtain ⟨intake, fault⟩ := taken
      obtain ⟨intake', fault'⟩ := stopped
      obtain rfl : fault = none := hlenient
      obtain rfl : fault' = some first.fault := hfault
      exact .stops _ first rest hnoted

/-- A strict reading of one file goes along with a lenient one up to the first declaration that is noted.
Whether the file can be read does not depend on strictness. -/
theorem strictBeside_read (survey : Survey) (settings : Settings) (source : Text) (names : Place)
    (content : Option Content) :
    StrictBeside survey.intake.skipped (survey.read (settings.withStrict false) source names content)
      (survey.read (settings.withStrict true) source names content) := by
  rw [read_eq, read_eq]
  split
  · cases sourceText source (SourcePath.join names) content with
    | error fault => exact .fails fault fault
    | ok t => exact survey.strictBeside_take settings _ t
  · exact .agrees _ rfl

/-- A strict reading goes along with a lenient one up to the first declaration that is noted. The
induction is on the files; the strict reading has either stopped in one of them or got as far. -/
theorem strictBeside_readAll (survey : Survey) (settings : Settings) (source : Text)
    (files : List (Place × Option Content)) :
    StrictBeside survey.intake.skipped (survey.readAll (settings.withStrict false) source files)
      (survey.readAll (settings.withStrict true) source files) := by
  induction files generalizing survey with
  | nil => exact .agrees survey rfl
  | cons file rest ih =>
    obtain ⟨names, content⟩ := file
    have hread := survey.strictBeside_read settings source names content
    rw [readAll, readAll]
    generalize survey.read (settings.withStrict false) source names content = lenient,
      survey.read (settings.withStrict true) source names content = strict at hread
    cases hread with
    | fails fault fault' => exact .fails fault fault'
    | agrees next hnothing => exact hnothing ▸ ih next
    | stops next first noted hnoted =>
      -- The strict reading is over; the lenient one may fail later or note more.
      change StrictBeside _ (next.readAll (settings.withStrict false) source rest) (.error first.fault)
      have hrest := ih next
      generalize next.readAll (settings.withStrict false) source rest = lenient,
        next.readAll (settings.withStrict true) source rest = strict at hrest
      cases hrest with
      | fails fault fault' => exact .fails fault first.fault
      | agrees last hnothing => exact .stops last first noted (hnothing.trans hnoted)
      | stops last second more hmore =>
        refine .stops last first (noted ++ second :: more) ?_
        rw [hmore, hnoted, List.append_assoc, List.cons_append]

/-- A strict survey goes along with a lenient one up to the first declaration that is noted. -/
theorem strictBeside_ofTree (settings : Settings) (source : Text) (tree : FileTree) :
    StrictBeside [] (ofTree (settings.withStrict false) source tree)
      (ofTree (settings.withStrict true) source tree) := by
  unfold ofTree
  cases (tree.entriesOf? source).map (candidates source) with
  | none => exact .fails _ _
  | some files =>
    have hread := strictBeside_readAll {} settings source
      (files.filter fun file => settings.accepts file.1)
    simp only [ofFiles_some, Settings.accepts_withStrict]
    generalize readAll {} (settings.withStrict false) source
        (files.filter fun file => settings.accepts file.1) = lenient,
      readAll {} (settings.withStrict true) source
        (files.filter fun file => settings.accepts file.1) = strict at hread
    cases hread with
    | fails fault fault' => exact .fails fault fault'
    | agrees survey hnothing =>
      change StrictBeside [] survey.checked survey.checked
      unfold checked
      split
      · exact .agrees survey hnothing
      · exact .fails _ _
    | stops survey first rest hnoted =>
      change StrictBeside [] survey.checked (.error first.fault)
      unfold checked
      split
      · exact .stops survey first rest hnoted
      · exact .fails _ _

end Survey

/-- A generation that is strict and one that is lenient, of the same folder into the same folder. The
strict one succeeds exactly if the lenient one does without noting a declaration, and then both leave the
same tree and the same summary. Where the lenient one succeeds but notes declarations, the strict one
stops at the first of them, before it writes anything. The folders are named from the root of the tree. -/
theorem generateAll_strict (settings : Settings) (source output : Text) (tree : FileTree) :
    ((∃ summary, (generateAll (settings.withStrict true) source output tree).2 = .ok summary) ↔
        ∃ summary, (generateAll (settings.withStrict false) source output tree).2 = .ok summary ∧
          summary.skippedDeclarations = []) ∧
      (∀ summary, (generateAll (settings.withStrict false) source output tree).2 = .ok summary →
        summary.skippedDeclarations = [] →
        generateAll (settings.withStrict true) source output tree =
          generateAll (settings.withStrict false) source output tree) ∧
      ∀ summary first rest,
        (generateAll (settings.withStrict false) source output tree).2 = .ok summary →
        summary.skippedDeclarations = first :: rest →
        generateAll (settings.withStrict true) source output tree =
          (tree, .error (.malformedDeclaration first.file first.offset)) := by
  have hsurveys := Survey.strictBeside_ofTree settings source tree
  generalize hlenient : Survey.ofTree (settings.withStrict false) source tree = lenient,
    hstrict : Survey.ofTree (settings.withStrict true) source tree = strict at hsurveys
  cases hsurveys with
  | fails fault fault' =>
    rw [generateAll_of_error hlenient, generateAll_of_error hstrict]
    simp
  | agrees survey hnothing =>
    -- Both write what the same survey found, and the summary says that nothing was noted.
    rw [generateAll_of_ok hlenient, generateAll_of_ok hstrict, emit_withStrict, emit_withStrict]
    have hnoted {summary : Summary} (h : (survey.emit settings output tree).2 = .ok summary) :
        summary.skippedDeclarations = [] := by
      rw [Survey.eq_summary_of_emit h]
      exact hnothing
    refine ⟨⟨fun ⟨summary, h⟩ => ⟨summary, h, hnoted h⟩, fun ⟨summary, h, _⟩ => ⟨summary, h⟩⟩,
      fun _ _ _ => rfl, fun summary first rest h hfirst => ?_⟩
    rw [hnoted h] at hfirst
    cases hfirst
  | stops survey first rest hfirst =>
    rw [generateAll_of_ok hlenient, generateAll_of_error hstrict, emit_withStrict]
    have hnoted {summary : Summary} (h : (survey.emit settings output tree).2 = .ok summary) :
        summary.skippedDeclarations = first :: rest := by
      rw [Survey.eq_summary_of_emit h]
      exact hfirst
    refine ⟨⟨fun ⟨summary, h⟩ => (nomatch h), fun ⟨summary, h, hnothing⟩ => ?_⟩,
      fun summary h hnothing => ?_, fun summary second more h hsecond => ?_⟩
    · rw [hnoted h] at hnothing
      cases hnothing
    · rw [hnoted h] at hnothing
      cases hnothing
    · rw [hnoted h] at hsecond
      obtain ⟨rfl, -⟩ := List.cons.inj hsecond
      rfl

end ClassFlattening
