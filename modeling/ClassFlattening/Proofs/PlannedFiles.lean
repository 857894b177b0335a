import ClassFlattening.Proofs.LineageAgreement
import ClassFlattening.Proofs.RegistryHistory
import ClassFlattening.Proofs.RenderedSource
import ClassFlattening.Proofs.SurveyedFiles

/-!
# What is planned for the sources

A survey plans a file for each class source, in the order of the sources, with what is rendered for the
record made of the source, and then a file for each source that is copied. Both have the paths of the
sources, so no path is planned twice. All lines of classes are checked before anything is planned, so what
may be missing in the plan is the rendering of a source whose classes have a name that is no name of a type,
or copy a method whose signature is too long.
-/

namespace ClassFlattening

/-- The registry that class sources fill. -/
def registryOf (settings : Settings) (sources : List (Text × Text)) : Registry :=
  (Intake.registerAll settings.strictDeclarations (classSources sources)).registry

/-- What is to be written for sources: what is rendered for each class source, and then the sources that
are copied. -/
def planned (settings : Settings) (sources : List (Text × Text)) : List (Text × Except Fault Text) :=
  (classSources sources).map
      (fun file => (file.1, render settings (registryOf settings sources)
        (.ofSource settings.strictDeclarations file.1 file.2))) ++
    (copiedSources settings sources).map fun file => (file.1, .ok file.2)

section Paths

variable (settings : Settings) (sources : List (Text × Text))

/-- A planned path is that of a source. -/
theorem exists_source_of_mem_planned {emission : Text × Except Fault Text}
    (h : emission ∈ planned settings sources) : ∃ file ∈ sources, file.1 = emission.1 := by
  rcases List.mem_append.1 h with h | h
  · obtain ⟨file, hfile, rfl⟩ := List.mem_map.1 h
    exact ⟨file, List.mem_of_mem_filter hfile, rfl⟩
  · obtain ⟨file, hfile, rfl⟩ := List.mem_map.1 h
    refine ⟨file, ?_, rfl⟩
    rw [copiedSources] at hfile
    split at hfile
    · exact List.mem_of_mem_filter hfile
    · cases hfile

/-- No path is planned twice. -/
theorem nodup_planned {sources : List (Text × Text)} (h : (sources.map Prod.fst).Nodup) :
    ((planned settings sources).map Prod.fst).Nodup := by
  have hpaths : (planned settings sources).map Prod.fst =
      (classSources sources ++ copiedSources settings sources).map Prod.fst := by
    simp only [planned, List.map_append, List.map_map]
    rfl
  have hsplit : ((sources.filter fun s => isClassSource s.2) ++
      sources.filter fun s => !isClassSource s.2).Perm sources := List.filter_append_perm _ sources
  rw [hpaths, classSources, copiedSources]
  split
  · exact (hsplit.map Prod.fst).nodup_iff.2 h
  · rw [List.append_nil]
    exact h.sublist (List.filter_sublist.map _)

end Paths

/-- Taking in sources is a history of calls. -/
theorem registry_registerAll (strict : Bool) (sources : List (Text × Text)) :
    (Intake.registerAll strict sources).registry =
      Registry.Call.run (sources.map fun file => .registerSource strict file.1 file.2) := by
  have hfoldl (intake : Intake) :
      (sources.foldl (fun intake file => (intake.register strict file.1 file.2).1) intake).registry =
        (sources.map fun file => Registry.Call.registerSource strict file.1 file.2).foldl
          Registry.Call.apply intake.registry := by
    induction sources generalizing intake with
    | nil => rfl
    | cons file rest ih =>
      rw [List.foldl_cons, ih, List.map_cons, List.foldl_cons]
      rfl
  exact hfoldl {}

/-- Different texts stay all. -/
theorem eraseDups_of_nodup {texts : List Text} (h : texts.Nodup) : texts.eraseDups = texts := by
  induction texts with
  | nil => rfl
  | cons text rest ih =>
    obtain ⟨hnew, hrest⟩ := List.nodup_cons.1 h
    have hkept : rest.filter (fun other => !other == text) = rest := by
      refine List.filter_eq_self.2 fun other hother => ?_
      simpa using fun heq : other = text => hnew (heq ▸ hother)
    rw [List.eraseDups_cons, hkept, ih hrest]

/-- Behind sources of different paths, the files stand in the order of the sources. -/
theorem map_path_registerAll (strict : Bool) {sources : List (Text × Text)}
    (h : (sources.map Prod.fst).Nodup) :
    (Intake.registerAll strict sources).registry.files.map FileRecord.path = sources.map Prod.fst := by
  have hregistered (file : Text × Text) :
      (Registry.Call.steps (.registerSource strict file.1 file.2)).filterMap Registry.Step.registered? =
        [file.1] := by
    have hoffers : (List.map (Registry.Step.offer file.1)
        (Finding.taken strict (scan file.1 file.2))).filterMap Registry.Step.registered? = [] := by
      simp [Registry.Step.registered?]
    rw [Registry.Call.steps, List.filterMap_cons, hoffers]
    rfl
  rw [registry_registerAll, Registry.Call.run_eq_run_steps, Registry.map_path_run, List.flatMap_map,
    List.filterMap_flatMap]
  simp only [hregistered]
  rw [← List.map_eq_flatMap, eraseDups_of_nodup h]

/-- Behind sources of different paths, the files are the records made of the sources. -/
theorem files_registerAll (strict : Bool) {sources : List (Text × Text)}
    (h : (sources.map Prod.fst).Nodup) :
    (Intake.registerAll strict sources).registry.files =
      sources.map fun file => .ofSource strict file.1 file.2 := by
  have hpaths := map_path_registerAll strict h
  have hlength : (Intake.registerAll strict sources).registry.files.length = sources.length := by
    simpa using congrArg List.length hpaths
  refine List.ext_getElem (by rw [hlength, List.length_map]) fun i hi hi' => ?_
  rw [List.length_map] at hi'
  have hfound := Registry.file?_of_mem (hpaths ▸ h) (List.getElem_mem hi)
  have hsource : sources.lookup sources[i].1 = some sources[i].2 := lookup_of_mem h (List.getElem_mem hi')
  have hpath : (Intake.registerAll strict sources).registry.files[i].path = sources[i].1 := by
    have hget := congrArg (·[i]?) hpaths
    simpa [hi, hi'] using hget
  rw [hpath, Intake.file?_registerAll strict h, hsource] at hfound
  rw [List.getElem_map]
  exact (Option.some.inj hfound).symm

section Plans

variable {settings : Settings} {sources : List (Text × Text)}

/-- The files that class sources register are the records made of them. -/
theorem files_registryOf (h : (sources.map Prod.fst).Nodup) :
    (registryOf settings sources).files =
      (classSources sources).map fun file =>
        .ofSource settings.strictDeclarations file.1 file.2 :=
  files_registerAll _ (h.sublist (List.filter_sublist.map _))

/-- A survey emits what is planned for its sources. -/
theorem emissions_plus (h : (sources.map Prod.fst).Nodup) (rejected : List Text) :
    (Survey.plus {} settings rejected sources).emissions settings = planned settings sources := by
  have hregistry : (Survey.plus {} settings rejected sources).intake.registry = registryOf settings sources :=
    rfl
  have hcopied : (Survey.plus {} settings rejected sources).passthrough = copiedSources settings sources :=
    List.nil_append _
  rw [Survey.emissions, hregistry, hcopied, files_registryOf h, List.map_map, planned]
  congr 2
  funext file
  simp

/-- The summary of a survey counts its sources and what is planned for them. -/
theorem summary_plus (h : (sources.map Prod.fst).Nodup) (rejected : List Text) :
    (Survey.plus {} settings rejected sources).summary =
      { filesScanned := sources.length
        filesWritten := (classSources sources).length
        filesCopied := (copiedSources settings sources).length
        classesGenerated := (registryOf settings sources).classCount
        skippedPaths := rejected
        skippedDeclarations :=
          (Intake.registerAll settings.strictDeclarations (classSources sources)).skipped } := by
  have hfiles : (Survey.plus {} settings rejected sources).intake.registry.files.length =
      (classSources sources).length := by
    change (registryOf settings sources).files.length = _
    rw [files_registryOf h, List.length_map]
  rw [Survey.summary, hfiles]
  simp only [Survey.plus, List.nil_append, Nat.zero_add]
  rfl

/-- Behind sources whose classes have lines without a fault, a class source is refused for the name of a
class or for the signature of a method alone. -/
theorem fault_of_mem_planned (h : (sources.map Prod.fst).Nodup)
    (hvalid : (registryOf settings sources).validate = .ok ()) {path : Text} {fault : Fault}
    (hplanned : (path, .error fault) ∈ planned settings sources) :
    (∃ name, fault = .invalidTypeName name) ∨ ∃ method size, fault = .signatureTooLong method size := by
  rcases List.mem_append.1 hplanned with hplanned | hplanned
  · obtain ⟨file, hfile, heq⟩ := List.mem_map.1 hplanned
    obtain ⟨rfl, hrender⟩ := Prod.mk.inj heq
    obtain ⟨slices, tail, hdeclared, hplaced, hwhole⟩ :=
      exists_slices_of_ofSource settings.strictDeclarations file.1 file.2
    obtain ⟨c, hc, hrefused⟩ := exists_generate_of_render settings _ hdeclared hplaced
      (by rw [hwhole, FileRecord.source_ofSource]) hrender
    have hmem : c ∈ (registryOf settings sources).classes := by
      rw [Registry.classes, files_registryOf h]
      exact List.mem_flatMap.2 ⟨_, List.mem_map_of_mem hfile, hc⟩
    obtain ⟨line, hline⟩ := (Registry.validate_eq_ok_iff _).1 hvalid c hmem
    have habout := Class.isAboutClass_of_generate hrefused
    cases fault with
    | lineage lineage =>
      rw [Class.ancestors_of_generate_lineage hrefused] at hline
      cases hline
    | invalidTypeName name => exact Or.inl ⟨name, rfl⟩
    | signatureTooLong method size => exact Or.inr ⟨method, size, rfl⟩
    | _ => cases habout
  · obtain ⟨file, -, heq⟩ := List.mem_map.1 hplanned
    cases heq

end Plans

/-- A generated file, and the structs in its text. -/
structure GeneratedFile where
  path : Text
  text : Text
  structs : List Text

/-- A generated file has the path of its source and what the source is rendered as: the header, and the
source with a struct in the place of each class that is registered of it. -/
structure GeneratedFile.IsOf (settings : Settings) (registry : Registry) (source : Text × Text)
    (file : GeneratedFile) : Prop where
  path_eq : file.path = source.1
  rendered : render settings registry (.ofSource settings.strictDeclarations source.1 source.2) =
    .ok file.text
  spliced : ∃ slices tail,
    slices.map Slice.declared = (FileRecord.ofSource settings.strictDeclarations source.1 source.2).classes ∧
      Slice.Placed 0 slices ∧ Slice.whole slices ++ tail = source.2 ∧
      List.Forall₂ (fun s t => s.declared.generate settings source.1 registry = .ok t) slices file.structs ∧
      file.text = fileHeader ++ (splice slices file.structs ++ withoutRuntimeImports tail)

namespace GeneratedFile

variable {settings : Settings} {registry : Registry}

/-- A file has a struct for each class that is registered of its source. -/
theorem IsOf.length_structs {source : Text × Text} {file : GeneratedFile}
    (h : file.IsOf settings registry source) :
    file.structs.length =
      (FileRecord.ofSource settings.strictDeclarations source.1 source.2).classes.length := by
  obtain ⟨slices, tail, hdeclared, -, -, hstructs, -⟩ := h.spliced
  rw [← hdeclared, List.length_map, hstructs.length_eq]

/-- A source that is rendered makes a generated file. -/
theorem exists_isOf {source : Text × Text} {text : Text}
    (h : render settings registry (.ofSource settings.strictDeclarations source.1 source.2) = .ok text) :
    ∃ structs, IsOf settings registry source ⟨source.1, text, structs⟩ := by
  obtain ⟨slices, tail, hdeclared, hplaced, hwhole⟩ :=
    exists_slices_of_ofSource settings.strictDeclarations source.1 source.2
  obtain ⟨structs, hstructs, htext⟩ := exists_structs_of_render settings registry hdeclared hplaced
    (by rw [hwhole, FileRecord.source_ofSource]) h
  rw [FileRecord.path_ofSource] at hstructs
  exact ⟨structs, rfl, h, slices, tail, hdeclared, hplaced, hwhole, hstructs, htext⟩

/-- Sources that are all rendered make generated files. -/
theorem exists_forall₂_isOf {sources written : List (Text × Text)}
    (h : sources.map (fun file => (file.1, render settings registry
        (.ofSource settings.strictDeclarations file.1 file.2))) =
      written.map fun file => (file.1, .ok file.2)) :
    ∃ generated, List.Forall₂ (IsOf settings registry) sources generated ∧
      written = generated.map fun file => (file.path, file.text) := by
  induction sources generalizing written with
  | nil =>
    obtain rfl := List.map_eq_nil_iff.1 h.symm
    exact ⟨[], .nil, rfl⟩
  | cons source sources ih =>
    obtain ⟨file, rest, rfl, hfile, hrest⟩ := List.map_eq_cons_iff.1 h.symm
    obtain ⟨generated, hgenerated, rfl⟩ := ih hrest.symm
    obtain ⟨hpath, htext⟩ := Prod.mk.inj hfile
    obtain ⟨structs, hstructs⟩ := exists_isOf htext.symm
    exact ⟨⟨source.1, file.2, structs⟩ :: generated, .cons hstructs hgenerated, by rw [← hpath]; rfl⟩

end GeneratedFile

section Plans

variable {settings : Settings} {sources : List (Text × Text)}

/-- A plan without faults consists of a generated file for each class source, and the copied sources. -/
theorem exists_generated_of_planned {written : List (Text × Text)}
    (h : planned settings sources = written.map fun file => (file.1, .ok file.2)) :
    ∃ generated,
      List.Forall₂ (GeneratedFile.IsOf settings (registryOf settings sources)) (classSources sources)
        generated ∧
      written = generated.map (fun file => (file.path, file.text)) ++ copiedSources settings sources := by
  obtain ⟨rendered, copied, rfl, hrendered, hcopied⟩ := List.map_eq_append_iff.1 h.symm
  obtain ⟨generated, hgenerated, rfl⟩ := GeneratedFile.exists_forall₂_isOf hrendered.symm
  have hinjective : Function.Injective fun file : Text × Text =>
      ((file.1, .ok file.2) : Text × Except Fault Text) := by
    intro file file' heq
    obtain ⟨hpath, htext⟩ := Prod.mk.inj heq
    exact Prod.ext hpath (Except.ok.inj htext)
  exact ⟨generated, hgenerated, by rw [List.map_injective_iff.2 hinjective hcopied]⟩

/-- The registered classes are as many as the structs in all generated files. -/
theorem classCount_registryOf (h : (sources.map Prod.fst).Nodup) {generated : List GeneratedFile}
    (hgenerated : List.Forall₂ (GeneratedFile.IsOf settings (registryOf settings sources))
      (classSources sources) generated) :
    (registryOf settings sources).classCount = (generated.map fun file => file.structs.length).sum := by
  have hlengths : (classSources sources).map (fun file =>
      (FileRecord.ofSource settings.strictDeclarations file.1 file.2).classes.length) =
        generated.map fun file => file.structs.length := by
    have heach := hgenerated.imp fun _ _ hfile => hfile.length_structs.symm
    have heq := List.forall₂_map_left_iff.2 (List.forall₂_map_right_iff.2 heach)
    exact List.forall₂_eq_eq_eq ▸ heq
  rw [Registry.classCount, Registry.classes, files_registryOf h, List.length_flatMap, List.map_map, ← hlengths]
  rfl

end Plans

end ClassFlattening
