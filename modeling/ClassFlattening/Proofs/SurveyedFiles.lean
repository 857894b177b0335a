import ClassFlattening.Generation
import ClassFlattening.Proofs.Checks
import ClassFlattening.Proofs.Locality
import Mathlib.Data.List.Basic
import Mathlib.Data.List.Forall2

/-!
# What a survey is made of

A survey reads the files of a source folder one by one. A file whose path is not safe is only named; any
other file has to be read, and its text is then taken in, kept to be copied or left, depending on what it
is. So a survey that succeeds is made of the texts of the files with safe paths: its registry is what an
intake of the class sources among them fills, and everything else in it is counted or listed from them.
One that fails says why a file cannot be read, which declaration is malformed or what is wrong with a line
of ancestors.
-/

namespace ClassFlattening

/-- Whether the path that names make up is safe. -/
def Place.isSafe (names : Place) : Bool := (SourcePath.violation? (SourcePath.join names)).isNone

/-- The text of a source file, or why it cannot be read. -/
def sourceText (source path : Text) : Option Content → Except Fault Text
  | none => .error (.refused (source.slash path))
  | some content =>
    if content.size > fileSizeLimit then .error (.fileTooLarge (source.slash path) content.size)
    else
      match content.text? with
      | none => .error (.refused (source.slash path))
      | some t => .ok t

/-- A source file can be read exactly if it holds a text that is not too large. -/
theorem sourceText_eq_ok_iff {source path t : Text} {content : Option Content} :
    sourceText source path content = .ok t ↔
      content = some (.text t) ∧ t.size ≤ fileSizeLimit := by
  cases content with
  | none => simp [sourceText]
  | some content =>
    rw [sourceText]
    split
    · next hlarge =>
      simp only [reduceCtorEq, false_iff, not_and, Option.some.injEq]
      rintro rfl
      exact Nat.not_le.2 hlarge
    · next hsize =>
      cases content with
      | text u =>
        constructor
        · intro h
          cases h
          exact ⟨rfl, Nat.not_lt.1 hsize⟩
        · rintro ⟨h, -⟩
          cases h
          rfl
      | binary bytes => simp [Content.text?]

/-- Why a generation stops before it writes: there is no source folder, a file of it is too large or
cannot be read, a declaration is malformed, or the line of a class does not end. -/
inductive Fault.IsOfReading (source : Text) : Fault → Prop
  | missingSource : IsOfReading source (.missingSource source)
  | fileTooLarge (path : Text) (size : Nat) : IsOfReading source (.fileTooLarge (source.slash path) size)
  | unreadable (path : Text) : IsOfReading source (.refused (source.slash path))
  | malformed (path : Text) (offset : Nat) : IsOfReading source (.malformedDeclaration path offset)
  | lineage (fault : LineageFault) : IsOfReading source (.lineage fault)

/-- A file that cannot be read stops a reading. -/
theorem isOfReading_of_sourceText {source path : Text} {content : Option Content} {fault : Fault}
    (h : sourceText source path content = .error fault) : fault.IsOfReading source := by
  cases content with
  | none =>
    cases h
    exact .unreadable path
  | some content =>
    rw [sourceText] at h
    split at h
    · cases h
      exact .fileTooLarge path _
    · split at h
      · cases h
        exact .unreadable path
      · cases h

/-- The sources that declare classes or import the runtime module. -/
def classSources (sources : List (Text × Text)) : List (Text × Text) :=
  sources.filter fun s => isClassSource s.2

/-- The other sources, if they are copied. -/
def copiedSources (settings : Settings) (sources : List (Text × Text)) : List (Text × Text) :=
  if settings.copyPassthrough then sources.filter fun s => !isClassSource s.2 else []

/-- Where sources without classes are copied, each source is either a class source or copied. -/
theorem length_classSources_add_copiedSources {settings : Settings} (h : settings.copyPassthrough = true)
    (sources : List (Text × Text)) :
    (classSources sources).length + (copiedSources settings sources).length = sources.length := by
  rw [copiedSources, if_pos h, classSources]
  exact (List.length_eq_length_filter_add _).symm

namespace Survey

/-- Takes in the text of one source file. -/
def take (survey : Survey) (settings : Settings) (path t : Text) : Except Fault Survey :=
  let survey := { survey with scanned := survey.scanned + 1 }
  if isClassSource t then
    match survey.intake.register settings.strictDeclarations path t with
    | (intake, none) => .ok { survey with intake }
    | (_, some fault) => .error fault
  else if settings.copyPassthrough then
    .ok { survey with passthrough := survey.passthrough ++ [(path, t)] }
  else .ok survey

/-- Reading one file takes in its text, unless its path is not safe. -/
theorem read_eq (survey : Survey) (settings : Settings) (source : Text) (names : Place)
    (content : Option Content) :
    survey.read settings source names content =
      if names.isSafe then
        sourceText source (SourcePath.join names) content >>= survey.take settings (SourcePath.join names)
      else .ok { survey with skippedPaths := survey.skippedPaths ++ [SourcePath.join names] } := by
  unfold read Place.isSafe
  dsimp only
  cases SourcePath.violation? (SourcePath.join names) with
  | some violation => rfl
  | none =>
    cases content with
    | none => rfl
    | some content =>
      rw [sourceText]
      dsimp only [Option.isSome_none, Option.isNone_none]
      rw [if_neg Bool.false_ne_true, if_pos rfl]
      split
      · rfl
      · cases content.text? <;> rfl

/-- A survey with more paths passed over and more sources taken in. -/
def plus (survey : Survey) (settings : Settings) (rejected : List Text)
    (sources : List (Text × Text)) : Survey where
  intake := (classSources sources).foldl
    (fun intake (path, t) => (intake.register settings.strictDeclarations path t).1) survey.intake
  passthrough := survey.passthrough ++ copiedSources settings sources
  scanned := survey.scanned + sources.length
  skippedPaths := survey.skippedPaths ++ rejected

/-- Nothing is added to a survey. -/
@[simp] theorem plus_nil (survey : Survey) (settings : Settings) : survey.plus settings [] [] = survey := by
  rcases survey with ⟨intake, passthrough, scanned, skippedPaths⟩
  simp [plus, classSources, copiedSources]

/-- What is added first and then is added together. -/
theorem plus_plus (survey : Survey) (settings : Settings) (rejected rejected' : List Text)
    (sources sources' : List (Text × Text)) :
    (survey.plus settings rejected sources).plus settings rejected' sources' =
      survey.plus settings (rejected ++ rejected') (sources ++ sources') := by
  have hcopied : copiedSources settings (sources ++ sources') =
      copiedSources settings sources ++ copiedSources settings sources' := by
    unfold copiedSources
    split
    · exact List.filter_append ..
    · rfl
  simp only [plus, hcopied, classSources, List.filter_append, List.foldl_append, List.append_assoc,
    List.length_append, Nat.add_assoc]

/-- The text of a source without classes is taken in whatever is registered. -/
theorem take_of_not_isClassSource (survey : Survey) (settings : Settings) {path t : Text}
    (h : isClassSource t = false) :
    survey.take settings path t =
      .ok { survey with
        passthrough := survey.passthrough ++ copiedSources settings [(path, t)]
        scanned := survey.scanned + 1 } := by
  unfold take
  dsimp only
  rw [h, if_neg Bool.false_ne_true]
  split
  · next hcopy => simp [copiedSources, h, hcopy]
  · next hcopy => simp [copiedSources, hcopy]

/-- Taking in a text adds one source. -/
theorem eq_plus_of_take {survey next : Survey} {settings : Settings} {path t : Text}
    (h : survey.take settings path t = .ok next) : next = survey.plus settings [] [(path, t)] := by
  cases hclass : isClassSource t with
  | false =>
    rw [take_of_not_isClassSource survey settings hclass] at h
    cases h
    simp [plus, classSources, hclass]
  | true =>
    unfold take at h
    dsimp only at h
    rw [hclass, if_pos rfl] at h
    split at h
    · next intake hregister =>
      cases h
      simp [plus, classSources, copiedSources, hclass, hregister]
    · cases h

/-- Only a malformed declaration keeps a text from being taken in. -/
theorem isOfReading_of_take {survey : Survey} {settings : Settings} {source path t : Text} {fault : Fault}
    (h : survey.take settings path t = .error fault) : fault.IsOfReading source := by
  unfold take at h
  dsimp only at h
  split at h
  · split at h
    · cases h
    · next intake other hregister =>
      cases h
      obtain ⟨-, offset, -, hfault⟩ := Intake.fault_of_register (congrArg Prod.snd hregister)
      rw [hfault]
      exact .malformed path offset
  · split at h
    · cases h
    · cases h

/-- The texts of files with safe paths, as they are read. -/
def ReadAs (source : Text) (file : Place × Option Content) (s : Text × Text) : Prop :=
  s.1 = SourcePath.join file.1 ∧ sourceText source s.1 file.2 = .ok s.2

/-- A reading that succeeds has read every file with a safe path, and adds their texts and the paths of
the other files. -/
theorem exists_sources_of_readAll {survey next : Survey} {settings : Settings} {source : Text}
    {files : List (Place × Option Content)} (h : survey.readAll settings source files = .ok next) :
    ∃ sources, List.Forall₂ (ReadAs source) (files.filter fun file => file.1.isSafe) sources ∧
      next = survey.plus settings
        ((files.filter fun file => !file.1.isSafe).map fun file => SourcePath.join file.1) sources := by
  induction files generalizing survey with
  | nil =>
    cases h
    exact ⟨[], .nil, (plus_nil ..).symm⟩
  | cons file rest ih =>
    obtain ⟨names, content⟩ := file
    obtain ⟨first, hread, hrest⟩ := bind_eq_ok_iff.1 h
    obtain ⟨sources, hsources, rfl⟩ := ih hrest
    rw [read_eq] at hread
    cases hsafe : names.isSafe with
    | true =>
      rw [hsafe, if_pos rfl] at hread
      obtain ⟨t, htext, htake⟩ := bind_eq_ok_iff.1 hread
      refine ⟨(SourcePath.join names, t) :: sources, ?_, ?_⟩
      · rw [List.filter_cons, if_pos hsafe]
        exact .cons ⟨rfl, htext⟩ hsources
      · rw [eq_plus_of_take htake, plus_plus, List.filter_cons, if_neg (by simp [hsafe])]
        rfl
    | false =>
      rw [hsafe, if_neg Bool.false_ne_true] at hread
      cases hread
      refine ⟨sources, ?_, ?_⟩
      · rw [List.filter_cons, if_neg (by simp [hsafe])]
        exact hsources
      · have hone : { survey with skippedPaths := survey.skippedPaths ++ [SourcePath.join names] } =
            survey.plus settings [SourcePath.join names] [] := by
          simp [plus, classSources, copiedSources]
        rw [hone, plus_plus, List.filter_cons, if_pos (by simp [hsafe])]
        rfl

/-- A reading that fails says why a file cannot be read or which declaration is malformed. -/
theorem isOfReading_of_readAll {survey : Survey} {settings : Settings} {source : Text}
    {files : List (Place × Option Content)} {fault : Fault}
    (h : survey.readAll settings source files = .error fault) : fault.IsOfReading source := by
  induction files generalizing survey with
  | nil => cases h
  | cons file rest ih =>
    obtain ⟨names, content⟩ := file
    rcases bind_eq_error_iff.1 h with hread | ⟨next, -, hrest⟩
    · rw [read_eq] at hread
      split at hread
      · rcases bind_eq_error_iff.1 hread with htext | ⟨t, -, htake⟩
        · exact isOfReading_of_sourceText htext
        · exact isOfReading_of_take htake
      · cases hread
    · exact ih hrest

/-- A survey whose lines are all checked. -/
def checked (survey : Survey) : Except Fault Survey :=
  match survey.intake.registry.validate with
  | .ok _ => .ok survey
  | .error fault => .error (.lineage fault)

/-- Checking the lines succeeds with the survey itself if no line is at fault. -/
theorem checked_eq_ok_iff {survey next : Survey} :
    survey.checked = .ok next ↔ next = survey ∧ survey.intake.registry.validate = .ok () := by
  unfold checked
  cases survey.intake.registry.validate with
  | ok _ => simp [eq_comm]
  | error fault => simp

/-- A survey of files reads those that are accepted, and then checks the lines of all classes. -/
theorem ofFiles_some (settings : Settings) (source : Text) (files : List (Place × Option Content)) :
    ofFiles settings source (some files) =
      readAll {} settings source (files.filter fun file => settings.accepts file.1) >>= checked := by
  have hchecked (survey : Survey) : (do
      survey.intake.registry.validate.mapError Fault.lineage
      return survey) = survey.checked := by
    unfold checked
    cases survey.intake.registry.validate <;> rfl
  unfold ofFiles
  dsimp only
  simp only [hchecked]

/-- A survey that succeeds has read the files that are accepted, and no line of a class is at fault. -/
theorem ofFiles_eq_ok_iff {settings : Settings} {source : Text}
    {files : Option (List (Place × Option Content))} {survey : Survey} :
    ofFiles settings source files = .ok survey ↔
      ∃ found, files = some found ∧
        readAll {} settings source (found.filter fun file => settings.accepts file.1) = .ok survey ∧
        survey.intake.registry.validate = .ok () := by
  cases files with
  | none => simp [ofFiles]
  | some found =>
    rw [ofFiles_some, bind_eq_ok_iff]
    simp only [checked_eq_ok_iff, Option.some.injEq, exists_eq_left']
    constructor
    · rintro ⟨_, hread, rfl, hvalid⟩
      exact ⟨hread, hvalid⟩
    · rintro ⟨hread, hvalid⟩
      exact ⟨survey, hread, rfl, hvalid⟩

/-- A survey that fails says what keeps a generation from writing anything. -/
theorem isOfReading_of_ofFiles {settings : Settings} {source : Text}
    {files : Option (List (Place × Option Content))} {fault : Fault}
    (h : ofFiles settings source files = .error fault) : fault.IsOfReading source := by
  cases files with
  | none =>
    cases h
    exact .missingSource
  | some found =>
    rw [ofFiles_some] at h
    rcases bind_eq_error_iff.1 h with hread | ⟨survey, -, hchecked⟩
    · exact isOfReading_of_readAll hread
    · unfold checked at hchecked
      split at hchecked
      · cases hchecked
      · cases hchecked
        exact .lineage _

/-- Writes what a survey found below an output folder. -/
def emit (survey : Survey) (settings : Settings) (output : Text) (tree : FileTree) :
    FileTree × Except Fault Summary :=
  match tree.makeFolders output with
  | (tree, none) => (tree, .error (.refused output))
  | (tree, some place) =>
    match writeAll output place tree (survey.emissions settings) with
    | (tree, some fault) => (tree, .error fault)
    | (tree, none) => (tree, .ok survey.summary)

/-- Only a survey's own summary is given. -/
theorem eq_summary_of_emit {survey : Survey} {settings : Settings} {output : Text} {tree : FileTree}
    {summary : Summary} (h : (survey.emit settings output tree).2 = .ok summary) :
    summary = survey.summary := by
  unfold emit at h
  split at h
  · cases h
  · split at h
    · cases h
    · cases h
      rfl

end Survey

/-- The survey of a source folder in a tree. -/
def Survey.ofTree (settings : Settings) (source : Text) (tree : FileTree) : Except Fault Survey :=
  ofFiles settings source ((tree.entriesOf? source).map (candidates source))

/-- A generation that cannot survey the source folder leaves everything as it is. -/
theorem generateAll_of_error {settings : Settings} {source : Text} {tree : FileTree} {fault : Fault}
    (h : Survey.ofTree settings source tree = .error fault) (output : Text) :
    generateAll settings source output tree = (tree, .error fault) := by
  unfold Survey.ofTree at h
  rw [generateAll, h]

/-- A generation that has surveyed the source folder writes what it found. -/
theorem generateAll_of_ok {settings : Settings} {source : Text} {tree : FileTree} {survey : Survey}
    (h : Survey.ofTree settings source tree = .ok survey) (output : Text) :
    generateAll settings source output tree = survey.emit settings output tree := by
  unfold Survey.ofTree at h
  rw [generateAll, h]
  rfl

end ClassFlattening
