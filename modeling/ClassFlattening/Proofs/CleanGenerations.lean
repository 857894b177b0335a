import ClassFlattening.Proofs.CopiedGaps
import ClassFlattening.Proofs.GenerationOutcome
import ClassFlattening.Proofs.MarkersAccounted
import ClassFlattening.Proofs.RegistryHistory

/-!
# Clean generations

A generation is clean if it has passed over no path and no declaration. Every marker of its class sources
then lies in a declaration, but a declaration whose name is taken in its file is dropped without a note. So
what a clean generation copies of a source has a marker in it exactly if the source declares a name twice.
-/

namespace ClassFlattening

/-- Classes whose names are all different are all kept. -/
theorem FileRecord.classes_addAll_of_nodup {record : FileRecord} {classes : List Class}
    (h : ((record.classes ++ classes).map Class.name).Nodup) :
    (record.addAll classes).classes = record.classes ++ classes := by
  induction classes generalizing record with
  | nil => exact (List.append_nil _).symm
  | cons c rest ih =>
    have hnew : record.class? c.name = none := by
      rw [class?, List.find?_eq_none]
      intro d hd hname
      rw [List.map_append, List.nodup_append] at h
      exact h.2.2 _ (List.mem_map_of_mem hd) _ (List.mem_map_of_mem List.mem_cons_self) (beq_iff_eq.1 hname)
    have hadd : (record.add c).classes = record.classes ++ [c] := by
      rw [add, hnew]
    rw [addAll_cons, ih, hadd, List.append_assoc, List.singleton_append]
    rwa [hadd, List.append_assoc, List.singleton_append]

/-- Where nothing is malformed all declared classes are taken, strict or not. -/
theorem Finding.taken_of_declared {findings : List Finding} (strict : Bool)
    (h : ∀ offset, .malformed offset ∉ findings) :
    taken strict findings = findings.filterMap Finding.class? := by
  induction findings with
  | nil => rfl
  | cons finding rest ih =>
    cases finding with
    | declared c => exact congrArg (c :: ·) (ih fun offset hmem => h offset (List.mem_cons_of_mem _ hmem))
    | malformed offset => exact absurd List.mem_cons_self (h offset)

/-- Placed classes are all different. -/
theorem Slice.Placed.nodup {offset : Nat} {slices : List Slice} (h : Slice.Placed offset slices) :
    (slices.map Slice.declared).Nodup := by
  induction slices generalizing offset with
  | nil => exact List.nodup_nil
  | cons s rest ih =>
    obtain ⟨hne, hspan, hrest⟩ := h
    refine List.nodup_cons.2 ⟨fun hmem => ?_, ih hrest⟩
    obtain ⟨t, ht, heq⟩ := List.mem_map.1 hmem
    have hstart := hrest.le_start t ht
    obtain ⟨c, statement, hstatement⟩ := List.exists_cons_of_ne_nil hne
    have hpos := c.utf8Size_pos
    rw [heq, hspan, hstatement, Text.size_cons] at hstart
    dsimp only at hstart
    omega

/-- A source declares no name twice. -/
def DeclaresOnce (file source : Text) : Prop :=
  (((scan file source).filterMap Finding.class?).map Class.name).Nodup

section Source

variable {file source : Text}

/-- A declared class has an outcome. -/
theorem exists_outcome_of_declared {c : Class} (h : c ∈ (scan file source).filterMap Finding.class?) :
    ∃ site, .declared site c ∈ outcomes file source := by
  rw [scan, ← map_finding_outcomesFrom, List.filterMap_map, List.mem_filterMap] at h
  obtain ⟨o, ho, hclass⟩ := h
  cases o with
  | malformed offset => cases hclass
  | declared site d =>
    cases hclass
    exact ⟨site, ho⟩

/-- What has an outcome is found. -/
theorem finding_mem_scan {o : Outcome} (h : o ∈ outcomes file source) : o.finding ∈ scan file source := by
  rw [scan, ← map_finding_outcomesFrom]
  exact List.mem_map_of_mem h

/-- Where nothing is malformed every marker lies in the span of a declared class. -/
theorem exists_span_of_marker (h : ∀ offset, .malformed offset ∉ scan file source) {before after : Text}
    (hsource : source = before ++ (marker ++ after)) :
    ∃ c ∈ (scan file source).filterMap Finding.class?,
      c.span.start ≤ before.size ∧ before.size < c.span.stop := by
  have hspan {site : Site} {c : Class} (hsite : .declared site c ∈ outcomes file source)
      (hlies : site.markerOffset ≤ before.size ∧ before.size < site.stop) :
      ∃ c ∈ (scan file source).filterMap Finding.class?,
        c.span.start ≤ before.size ∧ before.size < c.span.stop := by
    obtain ⟨hspan, hsource⟩ := span_and_liesIn_of_mem hsite
    refine ⟨c, List.mem_filterMap.2 ⟨_, finding_mem_scan hsite, rfl⟩, ?_⟩
    rw [hspan]
    exact ⟨Nat.le_trans hsource.start_le_marker hlies.1, hlies.2⟩
  have hwhole : Front.empty.text ++ source = before ++ (marker ++ after) := hsource
  rcases exists_outcome_or_site file .empty source hwhole List.nil_prefix with
    ⟨o, ho, hmarker⟩ | ⟨site, c, hsite, hinside⟩
  · cases o with
    | malformed offset => exact absurd (finding_mem_scan ho) (h offset)
    | declared site c => exact hspan ho ⟨Nat.le_of_eq hmarker, hmarker ▸ site.markerOffset_lt_stop⟩
  · have hbetween := Site.between_of_holds_or_swallows (span_and_liesIn_of_mem hsite).2 hinside
    exact hspan hsite ⟨Nat.le_of_lt hbetween.1, hbetween.2⟩

/-- The marker of a declaration lies apart from the spans of all other declared classes. -/
theorem exists_marker_apart {c : Class} (hc : c ∈ (scan file source).filterMap Finding.class?)
    {slices : List Slice}
    (hslices : ∀ s ∈ slices, s.declared ∈ (scan file source).filterMap Finding.class? ∧ s.declared ≠ c) :
    ∃ before after, source = before ++ (marker ++ after) ∧
      Slice.Apart slices before.size (before.size + marker.size) := by
  obtain ⟨site, hsite⟩ := exists_outcome_of_declared hc
  obtain ⟨hspan, hlies⟩ := span_and_liesIn_of_mem hsite
  obtain ⟨before, after, hsource, hoffset, -⟩ := Text.between?_eq_some_iff.1 hlies.between?_marker
  refine ⟨before, after, by rw [hsource, List.append_assoc], fun s hs => ?_⟩
  obtain ⟨hdeclared, hother⟩ := hslices s hs
  obtain ⟨other, hoccurs⟩ := exists_outcome_of_declared hdeclared
  obtain ⟨hspan', hlies'⟩ := span_and_liesIn_of_mem hoccurs
  have hstart := hlies.start_le_marker
  have hopen := hlies.marker_le_open
  have hclose := hlies.open_lt_close
  have hstop := hlies.close_lt_stop
  rw [hspan', ← hoffset]
  rcases precedes_of_mem hoccurs hsite with heq | hbefore | hbehind
  · cases heq
    exact absurd rfl hother
  · have := hbefore.stop_le_start hlies
    exact Or.inr (by dsimp only; omega)
  · have := hbehind.stop_le_start hlies'
    exact Or.inl (by dsimp only; omega)

/-- Where nothing is malformed, the record of a source keeps all declared classes exactly if no name is
declared twice. -/
theorem classes_ofSource_eq_iff (h : ∀ offset, .malformed offset ∉ scan file source) (strict : Bool) :
    (FileRecord.ofSource strict file source).classes = (scan file source).filterMap Finding.class? ↔
      DeclaresOnce file source := by
  have hempty : FileRecord.HasDistinctNames { path := file, aliases := importAliases file source, source } :=
    List.nodup_nil
  have hdistinct : (FileRecord.ofSource strict file source).HasDistinctNames :=
    (FileRecord.hasDistinctNames_addAll_iff _ _).2 hempty
  constructor
  · intro heq
    rwa [FileRecord.HasDistinctNames, heq] at hdistinct
  · intro hnodup
    rw [FileRecord.ofSource, Finding.taken_of_declared strict h]
    exact FileRecord.classes_addAll_of_nodup hnodup

/-- Where nothing is malformed, a gap between the registered classes of a source has a marker exactly if
some name is declared twice: the declarations that are dropped lie in the gaps. -/
theorem exists_gap_marker_iff (h : ∀ offset, .malformed offset ∉ scan file source) {strict : Bool}
    {slices : List Slice} {tail : Text}
    (hdeclared : slices.map Slice.declared = (FileRecord.ofSource strict file source).classes)
    (hplaced : Slice.Placed 0 slices) (hwhole : Slice.whole slices ++ tail = source) :
    (∃ gap ∈ Slice.gaps slices tail, gap.contains marker = true) ↔ ¬ DeclaresOnce file source := by
  rw [hplaced.exists_gap_contains_iff marker_ne_nil, hwhole, ← classes_ofSource_eq_iff h strict, ← hdeclared]
  have hsub : (slices.map Slice.declared).Sublist ((scan file source).filterMap Finding.class?) := by
    obtain ⟨kept, hkept, hsub⟩ := FileRecord.exists_kept_of_addAll
      { path := file, aliases := importAliases file source, source }
      (Finding.taken strict (scan file source))
    rw [hdeclared, FileRecord.ofSource, hkept]
    exact hsub.trans (Finding.taken_sublist strict _)
  constructor
  · rintro ⟨before, after, hsource, hapart⟩ hall
    obtain ⟨c, hc, hstart, hstop⟩ := exists_span_of_marker h hsource
    rw [← hall] at hc
    obtain ⟨s, hs, rfl⟩ := List.mem_map.1 hc
    have hbeside := hapart s hs
    have hmarker : marker.size = 11 := rfl
    omega
  · intro hdropped
    -- What is kept is a sublist of what is declared, which has no class twice: if it were not shorter, it would
    -- be all of it.
    obtain ⟨c, hc, hnew⟩ : ∃ c ∈ (scan file source).filterMap Finding.class?,
        c ∉ slices.map Slice.declared := by
      by_contra hnone
      push Not at hnone
      obtain ⟨all, rest, hplaces, hplaced', -⟩ := exists_slices_of_scan file source
      have hnodup := hplaced'.nodup
      rw [hplaces] at hnodup
      exact hdropped (hsub.eq_of_length_le (List.subperm_of_subset hnodup hnone).length_le)
    refine exists_marker_apart hc fun s hs => ⟨hsub.subset (List.mem_map_of_mem hs), ?_⟩
    rintro rfl
    exact hnew (List.mem_map_of_mem hs)

end Source

section Reading

/-- Findings that stop no intake and leave nothing noted are all declarations. -/
theorem Intake.declared_of_ofFindings {registry : Registry} {file : Text} {record : FileRecord}
    (h : registry.file? file = some record) {strict : Bool} {findings : List Finding}
    (hfault : (ofFindings registry strict file findings).2 = none)
    (hskipped : (ofFindings registry strict file findings).1.skipped = []) :
    ∀ offset, .malformed offset ∉ findings := by
  induction findings generalizing registry record with
  | nil => exact fun offset => List.not_mem_nil
  | cons finding rest ih =>
    cases finding with
    | declared c =>
      obtain ⟨registry', hadd, hfile⟩ := registry.addClass_of_file? h c
      rw [ofFindings, hadd] at hfault hskipped
      intro offset hmem
      rcases List.mem_cons.1 hmem with heq | hmem
      · cases heq
      · exact ih (by rw [hfile, if_pos rfl]) hfault hskipped offset hmem
    | malformed offset =>
      rw [ofFindings] at hfault hskipped
      cases strict with
      | true => cases hfault
      | false => cases hskipped

/-- What an intake has noted stays noted. -/
theorem Intake.skipped_prefix_register (intake : Intake) (strict : Bool) (file source : Text) :
    intake.skipped <+: (intake.register strict file source).1.skipped :=
  List.prefix_append _ _

namespace Survey

variable {settings : Settings}

/-- What a survey has noted stays noted. -/
theorem skipped_prefix_plus (survey : Survey) (settings : Settings) (rejected : List Text)
    (sources : List (Text × Text)) :
    survey.intake.skipped <+: (survey.plus settings rejected sources).intake.skipped := by
  have hfoldl (intake : Intake) : intake.skipped <+: ((classSources sources).foldl
      (fun intake file => (intake.register settings.strictDeclarations file.1 file.2).1) intake).skipped := by
    induction classSources sources generalizing intake with
    | nil => exact List.prefix_rfl
    | cons file rest ih => exact (intake.skipped_prefix_register _ file.1 file.2).trans (ih _)
  exact hfoldl survey.intake

/-- A class source that is taken in without a note has no malformed declaration. -/
theorem declared_of_take {survey next : Survey} {path t : Text} (hclass : isClassSource t = true)
    (h : survey.take settings path t = .ok next) (hskipped : next.intake.skipped = []) :
    ∀ offset, .malformed offset ∉ scan path t := by
  unfold take at h
  dsimp only at h
  rw [hclass, if_pos rfl] at h
  have hfile := survey.intake.registry.file?_register_self
    { path, aliases := importAliases path t, source := t }
  split at h
  · next intake hregister =>
    cases h
    obtain ⟨rfl, hfault⟩ := Prod.mk.inj hregister
    exact Intake.declared_of_ofFindings hfile hfault (List.append_eq_nil_iff.1 hskipped).2
  · cases h

/-- Behind a reading that has noted nothing, no class source that was read has a malformed declaration. -/
theorem declared_of_readAll {survey next : Survey} {source : Text} {files : List (Place × Option Content)}
    (h : survey.readAll settings source files = .ok next) (hskipped : next.intake.skipped = [])
    {names : Place} {content : Option Content} (hfile : (names, content) ∈ files)
    (hsafe : names.isSafe = true) {t : Text} (htext : sourceText source (SourcePath.join names) content = .ok t)
    (hclass : isClassSource t = true) : ∀ offset, .malformed offset ∉ scan (SourcePath.join names) t := by
  induction files generalizing survey with
  | nil => cases hfile
  | cons file rest ih =>
    obtain ⟨first, hread, hrest⟩ := bind_eq_ok_iff.1 h
    rcases List.mem_cons.1 hfile with rfl | hfile
    · rw [read_eq, hsafe, if_pos rfl, htext] at hread
      obtain ⟨sources, -, hplus⟩ := exists_sources_of_readAll hrest
      have hfirst := first.skipped_prefix_plus settings
        ((rest.filter fun file => !file.1.isSafe).map fun file => SourcePath.join file.1) sources
      rw [← hplus, hskipped] at hfirst
      exact declared_of_take hclass hread (List.prefix_nil.1 hfirst)
    · exact ih hrest hfile

/-- Behind a survey that has noted nothing, no class source has a malformed declaration. -/
theorem declared_of_ofTree {source : Text} {tree : FileTree} {survey : Survey} {visited : List Place}
    {sources : List (Text × Text)} (h : tree.IsSound) (hsurvey : ofTree settings source tree = .ok survey)
    (hskipped : survey.intake.skipped = []) (hwalk : IsWalk settings source tree visited)
    (htexts : AreSources source tree visited sources) {file : Text × Text}
    (hfile : file ∈ classSources sources) : ∀ offset, .malformed offset ∉ scan file.1 file.2 := by
  obtain ⟨found, hfound, hread, -⟩ := ofFiles_eq_ok_iff.1 hsurvey
  obtain ⟨entries, hentries, rfl⟩ := Option.map_eq_some_iff.1 hfound
  obtain ⟨root, hroot, rfl⟩ := Option.map_eq_some_iff.1 hentries
  have hlocate := (Option.filter_eq_some_iff.1 hroot).1
  obtain ⟨hsource, hclass⟩ := List.mem_filter.1 hfile
  obtain ⟨names, hvisited, hsafe, hpath, htext, hsize⟩ := htexts.exists_visited hsource
  obtain ⟨haccepted, hcomes⟩ := (hwalk.mem_iff names).1 hvisited
  have hcandidate : (names, some (.text file.2)) ∈ candidates source (tree.entriesBelow root) :=
    (h.mem_candidates_iff hlocate).2 ⟨hcomes, by rw [htext]; rfl⟩
  rw [hpath]
  exact declared_of_readAll hread hskipped (List.mem_filter.2 ⟨hcandidate, haccepted⟩) hsafe
    (sourceText_eq_ok_iff.2 ⟨rfl, hsize⟩) hclass

end Survey

end Reading

/-- A copied source has no marker. -/
theorem not_contains_marker_of_mem_copiedSources {settings : Settings} {sources : List (Text × Text)}
    {file : Text × Text} (hfile : file ∈ copiedSources settings sources) : file.2.contains marker = false := by
  rw [copiedSources] at hfile
  split at hfile
  · have hclass := List.of_mem_filter hfile
    rw [Bool.not_eq_true', isClassSource, Bool.or_eq_false_iff] at hclass
    exact hclass.1
  · cases hfile

section Generation

variable {settings : Settings} {source output : Text} {tree tree' : FileTree}

/-- A generation that succeeds without having noted a declaration has come upon no malformed one. -/
theorem declared_of_generateAll {summary : Summary} (h : tree.IsSound)
    (hrun : (generateAll settings source output tree).2 = .ok summary)
    (hskipped : summary.skippedDeclarations = []) {visited : List Place} {sources : List (Text × Text)}
    (hwalk : IsWalk settings source tree visited) (htexts : AreSources source tree visited sources)
    {file : Text × Text} (hfile : file ∈ classSources sources) :
    ∀ offset, .malformed offset ∉ scan file.1 file.2 := by
  cases hsurvey : Survey.ofTree settings source tree with
  | error fault =>
    rw [generateAll_of_error hsurvey] at hrun
    cases hrun
  | ok survey =>
    rw [generateAll_of_ok hsurvey] at hrun
    rw [Survey.eq_summary_of_emit hrun] at hskipped
    exact Survey.declared_of_ofTree h hsurvey hskipped hwalk htexts hfile

/-- A clean generation has written a file for each class source, with a struct in the place of each class
that is registered of it, and the copied sources, which have no marker. A gap of a class source has a marker
exactly if the source declares a name twice. Where all names are different, no marker is left in what is
written of the gaps. -/
theorem generateAll_clean {summary : Summary} (h : tree.IsSound)
    (hrun : generateAll settings source output tree = (tree', .ok summary))
    (hclean : summary.isClean = true) :
    ∃ visited sources generated,
      IsWalk settings source tree visited ∧ AreSources source tree visited sources ∧
      List.Forall₂ (GeneratedFile.IsOf settings (registryOf settings sources)) (classSources sources)
        generated ∧
      tree.Overwritten output
        (generated.map (fun file => (file.path, file.text)) ++ copiedSources settings sources) tree' ∧
      (∀ file ∈ copiedSources settings sources, file.2.contains marker = false) ∧
      ∀ file ∈ classSources sources, ∀ slices tail, IsLayout settings.strictDeclarations file slices tail →
        ((∃ gap ∈ Slice.gaps slices tail, gap.contains marker = true) ↔ ¬ DeclaresOnce file.1 file.2) ∧
        (DeclaresOnce file.1 file.2 →
          ∀ gap ∈ Slice.gaps slices tail, (withoutRuntimeImports gap).contains marker = false) := by
  rcases generateAll_cases settings source output h with ⟨other, -, hall⟩ |
    ⟨visited, sources, hwalk, htexts, -, written, pending, hparts, hover, hend⟩
  · rw [hall] at hrun
    cases hrun
  have hskipped : summary.skippedDeclarations = [] := by
    rw [Summary.isClean, Bool.and_eq_true] at hclean
    exact List.isEmpty_iff.1 hclean.2
  have hdeclared {file : Text × Text} (hfile : file ∈ classSources sources) :=
    declared_of_generateAll h (congrArg Prod.snd hrun) hskipped hwalk htexts hfile
  rw [hrun] at hover hend
  -- Nothing is left to be written of what was planned, since the generation has not failed.
  obtain ⟨-, rfl⟩ := hend.resolve_right fun ⟨_, herror, _⟩ => by cases herror
  rw [List.append_nil] at hparts
  obtain ⟨generated, hgenerated, rfl⟩ := exists_generated_of_planned hparts
  refine ⟨visited, sources, generated, hwalk, htexts, hgenerated, hover, fun file hfile => ?_,
    fun file hfile slices tail hlayout => ?_⟩
  · exact not_contains_marker_of_mem_copiedSources hfile
  · have hiff := exists_gap_marker_iff (hdeclared hfile) hlayout.declared hlayout.placed hlayout.whole
    refine ⟨hiff, fun honce gap hgap => ?_⟩
    rw [← Bool.not_eq_true, Text.contains_iff marker_ne_nil]
    rintro ⟨before, after, hwritten⟩
    obtain ⟨before, after, hsource⟩ := occurs_of_withoutRuntimeImports (by decide) marker_ne_nil hwritten
    exact hiff.1 ⟨gap, hgap, (Text.contains_iff marker_ne_nil).2 ⟨before, after, hsource⟩⟩ honce

end Generation

/-- A source with two classes on one line behind an import of the runtime module, and one that declares a
name twice. -/
def twinsTree : FileTree where
  entries :=
    [([sourceFolder], .folder),
      ([sourceFolder, "pair.zig".toList],
        textFile ("const zoop = @import(\"zoop\");\n".toList ++ classText "A" ++ classText "B")),
      ([sourceFolder, "twins.zig".toList], textFile (classText "A" ++ classText "A"))]

/-- What is there when the two sources are written: the second declaration of the twins is copied. -/
def behindTwins : FileTree where
  entries := twinsTree.entries ++
    [([outputFolder], .folder),
      ([outputFolder, "pair.zig".toList], textFile (fileHeader ++ (structText "A" ++ structText "B"))),
      ([outputFolder, "twins.zig".toList], textFile (fileHeader ++ (structText "A" ++ classText "A")))]

/-- The summary of the two sources notes nothing. -/
def twinsSummary : Summary := { filesScanned := 2, filesWritten := 2, classesGenerated := 3 }

/-- The generation of the two sources succeeds. -/
theorem generateAll_twins :
    generateAll {} sourceFolder outputFolder twinsTree = (behindTwins, .ok twinsSummary) := by
  decide +kernel

/-- The generation of the two sources is clean. -/
theorem generateAll_clean_twins :
    twinsTree.IsSound ∧ generateAll {} sourceFolder outputFolder twinsTree = (behindTwins, .ok twinsSummary) ∧
      twinsSummary.isClean = true ∧
      ∃ visited sources generated,
        IsWalk {} sourceFolder twinsTree visited ∧ AreSources sourceFolder twinsTree visited sources ∧
        List.Forall₂ (GeneratedFile.IsOf {} (registryOf {} sources)) (classSources sources) generated ∧
        twinsTree.Overwritten outputFolder
          (generated.map (fun file => (file.path, file.text)) ++ copiedSources {} sources) behindTwins ∧
        (∀ file ∈ copiedSources {} sources, file.2.contains marker = false) ∧
        ∀ file ∈ classSources sources, ∀ slices tail, IsLayout false file slices tail →
          ((∃ gap ∈ Slice.gaps slices tail, gap.contains marker = true) ↔ ¬ DeclaresOnce file.1 file.2) ∧
          (DeclaresOnce file.1 file.2 →
            ∀ gap ∈ Slice.gaps slices tail, (withoutRuntimeImports gap).contains marker = false) := by
  have hsound : twinsTree.IsSound := by decide +kernel
  have hclean : twinsSummary.isClean = true := rfl
  exact ⟨hsound, generateAll_twins, hclean, generateAll_clean hsound generateAll_twins hclean⟩

/-- The first of two declarations of a name. -/
def firstTwin : Slice where
  gap := []
  statement := (classText "A").dropLast
  declared :=
    { name := "A".toList
      fields := [⟨"x".toList, "u8".toList, none⟩]
      span := ⟨0, 39⟩
      file := "twins.zig".toList }

/-- What a clean generation copies may have a marker in it: that of a declaration whose name is taken. -/
theorem marker_left_of_twins :
    generateAll {} sourceFolder outputFolder twinsTree = (behindTwins, .ok twinsSummary) ∧
      twinsSummary.isClean = true ∧
      ∃ structs,
        IsLayout false ("twins.zig".toList, classText "A" ++ classText "A") [firstTwin]
            ('\n' :: classText "A") ∧
          behindTwins.find? (outputFolder.slash "twins.zig".toList) = some (textFile (fileHeader ++
            (splice [firstTwin] structs ++ withoutRuntimeImports ('\n' :: classText "A")))) ∧
          ∃ gap ∈ Slice.gaps [firstTwin] ('\n' :: classText "A"),
            (withoutRuntimeImports gap).contains marker = true := by
  refine ⟨generateAll_twins, rfl, [(structText "A").dropLast], ⟨?_, ?_, rfl⟩, by decide +kernel,
    _, List.mem_append_right _ (List.mem_singleton_self _), by decide +kernel⟩
  · decide +kernel
  · exact ⟨List.cons_ne_nil _ _, by decide +kernel, trivial⟩

end ClassFlattening
