import ClassFlattening.Proofs.PlannedFiles
import ClassFlattening.Proofs.VisitedFiles

/-!
# What a generation leaves behind

A generation reads everything before it writes anything. If it fails before that, nothing has changed. If
it fails later, the files in front of the one at which it stopped are written as planned and no other file
has changed. If it succeeds, all planned files are written: one for each class source, with a struct in the
place of each class, and the copied sources; and its summary counts just these. All of this is stated over
sound trees, in terms of what paths lead to in the tree before and behind the generation.
-/

namespace ClassFlattening

/-- Why not all can be written of what a generation has read: a class has a name that is no name of a type
or copies a method whose signature is too long, or the file system refuses the output folder or something
below it. -/
inductive Fault.IsOfWriting (output : Text) : Fault → Prop
  | invalidTypeName (name : Text) : IsOfWriting output (.invalidTypeName name)
  | signatureTooLong (method : Text) (size : Nat) : IsOfWriting output (.signatureTooLong method size)
  | refused (names : Place) : IsOfWriting output (.refused (output.below names))

/-- What a generation that fails leaves behind. -/
inductive LeftBehind (settings : Settings) (source output : Text) (tree tree' : FileTree) (fault : Fault) :
    Prop
  /-- It failed while it read the sources or checked the lines of the classes: nothing has changed. -/
  | nothing (failed : Survey.ofTree settings source tree = .error fault)
      (kind : fault.IsOfReading source) (unchanged : tree' = tree)
  /-- It failed while it wrote what is planned for the sources: what is in front of the file at which it
  stopped is written, and no other file has changed. -/
  | written {visited : List Place} {sources written : List (Text × Text)}
      {pending : List (Text × Except Fault Text)} (walk : IsWalk settings source tree visited)
      (texts : AreSources source tree visited sources) (kind : fault.IsOfWriting output)
      (parts : planned settings sources = written.map (fun file => (file.1, .ok file.2)) ++ pending)
      (proper : planned settings sources ≠ [] → pending ≠ []) (stop : StopsAt output pending fault)
      (overwritten : tree.Overwritten output written tree')

/-- What a generation that succeeds has done. -/
structure Generated (settings : Settings) (source output : Text) (tree tree' : FileTree) (summary : Summary)
    (visited : List Place) (sources : List (Text × Text)) (generated : List GeneratedFile) : Prop where
  walk : IsWalk settings source tree visited
  texts : AreSources source tree visited sources
  rendered : List.Forall₂ (GeneratedFile.IsOf settings (registryOf settings sources))
    (classSources sources) generated
  overwritten : tree.Overwritten output
    (generated.map (fun file => (file.path, file.text)) ++ copiedSources settings sources) tree'
  filesScanned : summary.filesScanned = (visited.filter Place.isSafe).length
  filesWritten : summary.filesWritten = (classSources sources).length
  filesCopied : summary.filesCopied = (copiedSources settings sources).length
  balance : settings.copyPassthrough = true →
    summary.filesScanned = summary.filesWritten + summary.filesCopied
  skippedPaths : summary.skippedPaths = rejectedPaths visited
  classesGenerated : summary.classesGenerated = (generated.map fun file => file.structs.length).sum

section Generation

variable {settings : Settings} {source output : Text} {tree tree' : FileTree}

/-- What a survey emits has the paths of its sources. -/
theorem isOutputPath_of_mem_emissions (h : tree.IsSound) {survey : Survey}
    (hsurvey : Survey.ofTree settings source tree = .ok survey) :
    ∀ emission ∈ survey.emissions settings, IsOutputPath emission.1 := by
  obtain ⟨visited, sources, hwalk, htexts, rfl, -⟩ := exists_walk_of_ofTree h hsurvey
  intro emission hemission
  rw [emissions_plus (hwalk.nodup_sources htexts)] at hemission
  obtain ⟨file, hfile, hpath⟩ := exists_source_of_mem_planned settings sources hemission
  exact hpath ▸ hwalk.isOutputPath htexts hfile

/-- The check of a path in front of the writing of its file never fails in a generation, whatever has been
written before. -/
theorem writeBelow_ne_unsafePath (h : tree.IsSound) {survey : Survey}
    (hsurvey : Survey.ofTree settings source tree = .ok survey) {emission : Text × Except Fault Text}
    (hemission : emission ∈ survey.emissions settings) (tree' : FileTree) (output : Text) (place : Place)
    (t turnedDown : Text) :
    (writeBelow tree' output place emission.1 t).2 ≠ some (.unsafePath turnedDown) := by
  rw [ne_eq, writeBelow_unsafePath_iff,
    (isOutputPath_of_mem_emissions h hsurvey emission hemission).safe]
  simp

/-- A generation either fails before it writes, or writes what is planned for the sources of a walk. -/
theorem generateAll_cases (settings : Settings) (source output : Text) (h : tree.IsSound) :
    (∃ fault, Survey.ofTree settings source tree = .error fault ∧
        generateAll settings source output tree = (tree, .error fault)) ∨
      ∃ visited sources, IsWalk settings source tree visited ∧ AreSources source tree visited sources ∧
        (registryOf settings sources).validate = .ok () ∧
        ∃ (written : List (Text × Text)) (pending : List (Text × Except Fault Text)),
          planned settings sources = written.map (fun file => (file.1, .ok file.2)) ++ pending ∧
          tree.Overwritten output written (generateAll settings source output tree).1 ∧
          ((generateAll settings source output tree).2 =
              .ok (Survey.plus {} settings (rejectedPaths visited) sources).summary ∧ pending = [] ∨
            ∃ fault, (generateAll settings source output tree).2 = .error fault ∧
              StopsAt output pending fault ∧ (pending = [] → written = [])) := by
  cases hsurvey : Survey.ofTree settings source tree with
  | error fault => exact Or.inl ⟨fault, rfl, generateAll_of_error hsurvey output⟩
  | ok survey =>
    have hpaths := isOutputPath_of_mem_emissions h hsurvey
    obtain ⟨visited, sources, hwalk, htexts, rfl, hvalid⟩ := exists_walk_of_ofTree h hsurvey
    have hdistinct := hwalk.nodup_sources htexts
    have hemissions : (Survey.plus {} settings (rejectedPaths visited) sources).emissions settings =
        planned settings sources := emissions_plus hdistinct _
    have hemit := Survey.emit_outcome _ settings output h hpaths
      (hemissions ▸ nodup_planned settings hdistinct)
    rw [hemissions, ← generateAll_of_ok hsurvey] at hemit
    exact Or.inr ⟨visited, sources, hwalk, htexts, hvalid, hemit⟩

/-- However a generation ends, it leaves a sound tree. -/
theorem isSound_generateAll (settings : Settings) (source output : Text) (h : tree.IsSound) :
    (generateAll settings source output tree).1.IsSound := by
  rcases generateAll_cases settings source output h with ⟨fault, -, hall⟩ |
    ⟨visited, sources, -, -, -, written, pending, -, hover, -⟩
  · rw [hall]
    exact h
  · exact hover.sound

/-- What keeps a generation from writing the next planned file is a fault of writing. -/
theorem isOfWriting_of_stopsAt {sources written : List (Text × Text)}
    {pending : List (Text × Except Fault Text)} {fault : Fault} (hdistinct : (sources.map Prod.fst).Nodup)
    (hvalid : (registryOf settings sources).validate = .ok ())
    (hparts : planned settings sources = written.map (fun file => (file.1, .ok file.2)) ++ pending)
    (hstop : StopsAt output pending fault) : fault.IsOfWriting output := by
  cases hstop with
  | unmade => exact .refused []
  | unrendered path fault rest =>
    have hmem : (path, .error fault) ∈ planned settings sources := by
      rw [hparts]
      exact List.mem_append_right _ List.mem_cons_self
    rcases fault_of_mem_planned hdistinct hvalid hmem with ⟨name, rfl⟩ | ⟨method, size, rfl⟩
    · exact .invalidTypeName name
    · exact .signatureTooLong method size
  | unwritten path t rest hnames => exact .refused _

/-- A generation that fails while it reads the sources or checks the lines of the classes leaves everything
as it was. One that fails while it writes has written the planned files in front of the one at which it
stopped, each as a whole, and no other file has changed. The folders are named from the root of the tree,
and an operation that the file system refuses leaves the tree as it is. -/
theorem generateAll_leaves_behind {fault : Fault} (h : tree.IsSound)
    (hrun : generateAll settings source output tree = (tree', .error fault)) :
    LeftBehind settings source output tree tree' fault := by
  rcases generateAll_cases settings source output h with ⟨other, hfailed, hall⟩ |
    ⟨visited, sources, hwalk, htexts, hvalid, written, pending, hparts, hover, hend⟩
  · rw [hall] at hrun
    cases hrun
    exact .nothing hfailed (Survey.isOfReading_of_ofFiles hfailed) rfl
  · rw [hrun] at hover hend
    rcases hend with ⟨hok, -⟩ | ⟨other, herror, hstop, hproper⟩
    · cases hok
    · cases herror
      refine .written hwalk htexts
        (isOfWriting_of_stopsAt (hwalk.nodup_sources htexts) hvalid hparts hstop) hparts ?_ hstop hover
      intro hsome hnone
      rw [hparts, hproper hnone, hnone] at hsome
      exact hsome rfl

end Generation

/-- The folder of the sources in the examples below. -/
def sourceFolder : Text := "src".toList

/-- The output folder in the examples below. -/
def outputFolder : Text := "out".toList

/-- A source that declares a class of the name with one field. -/
def classText (name : String) : Text :=
  "const ".toList ++ name.toList ++ " = zoop.class(struct \x7b x: u8 \x7d);\n".toList

/-- The struct that is generated for the class of the name. -/
def structText (name : String) : Text :=
  "const ".toList ++ name.toList ++ " = struct \x7b\n    x: u8,\n\x7d;\n".toList

/-- A file that holds a text. -/
def textFile (t : Text) : Entry := .file (.text t)

/-- Three sources, of which the second one declares a class whose name is no name of a type. -/
def misnamedTree : FileTree where
  entries :=
    [([sourceFolder], .folder),
      ([sourceFolder, "a.zig".toList], textFile (classText "A")),
      ([sourceFolder, "b.zig".toList], textFile (classText "Ä")),
      ([sourceFolder, "c.zig".toList], textFile (classText "C"))]

/-- What is written of the three sources. -/
def behindMisnamed : FileTree where
  entries := misnamedTree.entries ++
    [([outputFolder], .folder), ([outputFolder, "a.zig".toList], textFile (fileHeader ++ structText "A"))]

/-- The generation of the three sources fails with the second one, when the first one is written. -/
theorem generateAll_leaves_behind_misnamed :
    misnamedTree.IsSound ∧
      generateAll {} sourceFolder outputFolder misnamedTree =
        (behindMisnamed, .error (.invalidTypeName "Ä".toList)) ∧
      LeftBehind {} sourceFolder outputFolder misnamedTree behindMisnamed
        (.invalidTypeName "Ä".toList) := by
  have hsound : misnamedTree.IsSound := by decide +kernel
  have hrun : generateAll {} sourceFolder outputFolder misnamedTree =
      (behindMisnamed, .error (.invalidTypeName "Ä".toList)) := by decide +kernel
  exact ⟨hsound, hrun, generateAll_leaves_behind hsound hrun⟩

-- A place at which nothing may be written stops a generation in the same way.
example : generateAll {} sourceFolder outputFolder
      { misnamedTree with readOnly := [[outputFolder, "a.zig".toList]] } =
    ({ entries := misnamedTree.entries ++ [([outputFolder], .folder)]
       readOnly := [[outputFolder, "a.zig".toList]] }, .error (.refused "out/a.zig".toList)) := by
  decide +kernel

/-- A source folder with nothing in it, and a file where the output folder would be. -/
def blockedTree : FileTree where
  entries := [([sourceFolder], .folder), ([outputFolder], textFile ['x'])]

/-- A generation can fail for the output folder when there is nothing to write. The files that it has
written are then all that were to be written, and not fewer. -/
theorem generateAll_blocked :
    Survey.ofTree {} sourceFolder blockedTree = .ok {} ∧
      generateAll {} sourceFolder outputFolder blockedTree =
        (blockedTree, .error (.refused outputFolder)) ∧
      ¬ ∃ (written : List (Text × Text)) (pending : List (Text × Except Fault Text)),
        Survey.emissions {} {} = written.map (fun file => (file.1, .ok file.2)) ++ pending ∧
          pending ≠ [] := by
  refine ⟨by decide +kernel, by decide +kernel, ?_⟩
  rintro ⟨written, pending, hparts, hpending⟩
  exact hpending (List.append_eq_nil_iff.1 hparts.symm).2

section Generation

variable {settings : Settings} {source output : Text} {tree tree' : FileTree}

/-- A generation that succeeds has written a file for each class source, with a struct for each class, and
the copied sources, each to the path of its source below the output folder, and no other file has changed.
Its summary counts the sources, the files of both kinds and the structs, and lists the paths that were
passed over. The folders are named from the root of the tree, and names are texts. -/
theorem generateAll_generates {summary : Summary} (h : tree.IsSound)
    (hrun : generateAll settings source output tree = (tree', .ok summary)) :
    ∃ visited sources generated,
      Generated settings source output tree tree' summary visited sources generated := by
  rcases generateAll_cases settings source output h with ⟨other, hfailed, hall⟩ |
    ⟨visited, sources, hwalk, htexts, hvalid, written, pending, hparts, hover, hend⟩
  · rw [hall] at hrun
    cases hrun
  · rw [hrun] at hover hend
    rcases hend with ⟨hok, rfl⟩ | ⟨other, herror, -⟩
    · cases hok
      rw [List.append_nil] at hparts
      obtain ⟨generated, hgenerated, rfl⟩ := exists_generated_of_planned hparts
      have hdistinct := hwalk.nodup_sources htexts
      have hscanned : sources.length = (visited.filter Place.isSafe).length := htexts.length_eq.symm
      have hclasses := classCount_registryOf hdistinct hgenerated
      rw [summary_plus hdistinct]
      exact ⟨visited, sources, generated, hwalk, htexts, hgenerated, hover, hscanned, rfl, rfl,
        fun hcopy => (length_classSources_add_copiedSources hcopy sources).symm, rfl, hclasses⟩
    · cases herror

end Generation

/-- A source with a class, one without, one whose path is not safe and a file that is no source, beside an
output folder with an older version of one file and with another file. -/
def mixedTree : FileTree where
  entries :=
    [([sourceFolder], .folder),
      ([sourceFolder, "shapes.zig".toList], textFile (classText "A")),
      ([sourceFolder, "sub".toList], .folder),
      ([sourceFolder, "sub".toList, "plain.zig".toList], textFile "const x = 1;\n".toList),
      ([sourceFolder, "%2e.zig".toList], textFile (classText "B")),
      ([sourceFolder, "notes.txt".toList], textFile (classText "C")),
      ([outputFolder], .folder),
      ([outputFolder, "old.zig".toList], textFile "old\n".toList),
      ([outputFolder, "shapes.zig".toList], textFile "stale\n".toList)]

/-- What is there when the two sources are written. -/
def behindMixed : FileTree where
  entries := mixedTree.entries.dropLast ++
    [([outputFolder, "shapes.zig".toList], textFile (fileHeader ++ structText "A")),
      ([outputFolder, "sub".toList], .folder),
      ([outputFolder, "sub".toList, "plain.zig".toList], textFile "const x = 1;\n".toList)]

/-- The summary of the two sources. -/
def mixedSummary : Summary :=
  { filesScanned := 2, filesWritten := 1, filesCopied := 1, classesGenerated := 1
    skippedPaths := ["%2e.zig".toList] }

/-- The generation of the two sources succeeds. -/
theorem generateAll_generates_mixed :
    mixedTree.IsSound ∧
      generateAll { copyPassthrough := true } sourceFolder outputFolder mixedTree =
        (behindMixed, .ok mixedSummary) ∧
      ∃ visited sources generated,
        Generated { copyPassthrough := true } sourceFolder outputFolder mixedTree behindMixed mixedSummary
          visited sources generated := by
  have hsound : mixedTree.IsSound := by decide +kernel
  have hrun : generateAll { copyPassthrough := true } sourceFolder outputFolder mixedTree =
      (behindMixed, .ok mixedSummary) := by decide +kernel
  exact ⟨hsound, hrun, generateAll_generates hsound hrun⟩

end ClassFlattening
