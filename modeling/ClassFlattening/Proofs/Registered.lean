import ClassFlattening.Intake
import ClassFlattening.Proofs.ScanSteps

/-!
# What is registered for a file

A registry is seen through the record that it has for each path. Registering a record changes what is
found at its path and nowhere else, and adding a class adds it to the record of its file unless its name
is taken. Taking in a source therefore changes what is found at one path alone, whatever else is
registered: the record made of the source, `FileRecord.ofSource`. A lenient intake always succeeds, and
the classes of its file are declared classes of the source, in their order, with some left out.
-/

namespace ClassFlattening

namespace FileRecord

@[simp] theorem path_add (record : FileRecord) (c : Class) : (record.add c).path = record.path := by
  rw [add]
  split <;> rfl

@[simp] theorem source_add (record : FileRecord) (c : Class) :
    (record.add c).source = record.source := by
  rw [add]
  split <;> rfl

@[simp] theorem aliases_add (record : FileRecord) (c : Class) :
    (record.add c).aliases = record.aliases := by
  rw [add]
  split <;> rfl

/-- A record with classes added one after the other. -/
def addAll (record : FileRecord) (classes : List Class) : FileRecord := classes.foldl add record

theorem addAll_cons (record : FileRecord) (c : Class) (classes : List Class) :
    record.addAll (c :: classes) = (record.add c).addAll classes := rfl

@[simp] theorem path_addAll (record : FileRecord) (classes : List Class) :
    (record.addAll classes).path = record.path := by
  induction classes generalizing record with
  | nil => rfl
  | cons c rest ih => rw [addAll_cons, ih, path_add]

@[simp] theorem source_addAll (record : FileRecord) (classes : List Class) :
    (record.addAll classes).source = record.source := by
  induction classes generalizing record with
  | nil => rfl
  | cons c rest ih => rw [addAll_cons, ih, source_add]

@[simp] theorem aliases_addAll (record : FileRecord) (classes : List Class) :
    (record.addAll classes).aliases = record.aliases := by
  induction classes generalizing record with
  | nil => rfl
  | cons c rest ih => rw [addAll_cons, ih, aliases_add]

/-- Adding classes keeps those that are there and takes some of the new ones, in their order. -/
theorem exists_kept_of_addAll (record : FileRecord) (classes : List Class) :
    ∃ kept, (record.addAll classes).classes = record.classes ++ kept ∧ kept.Sublist classes := by
  induction classes generalizing record with
  | nil => exact ⟨[], (List.append_nil _).symm, .slnil⟩
  | cons c rest ih =>
    obtain ⟨kept, hkept, hsub⟩ := ih (record.add c)
    rw [addAll_cons, hkept, add]
    split
    · exact ⟨kept, rfl, hsub.cons c⟩
    · exact ⟨c :: kept, by simp, hsub.cons_cons c⟩

end FileRecord

namespace Registry

/-- A record is found at its own path. -/
theorem path_of_file? {registry : Registry} {path : Text} {record : FileRecord}
    (h : registry.file? path = some record) : record.path = path := by
  simpa using List.find?_some h

/-- Registering a record changes what is found at its path and nowhere else. -/
theorem file?_register (registry : Registry) (record : FileRecord) (path : Text) :
    (registry.register record).file? path =
      if record.path = path then some record else registry.file? path := by
  rw [register, file?, file?]
  dsimp only
  induction registry.files with
  | nil =>
    by_cases hpath : record.path = path
    · simp [replaceRecord, hpath]
    · simp [replaceRecord, hpath]
  | cons r rest ih =>
    rw [replaceRecord]
    by_cases hr : r.path = record.path
    · by_cases hpath : record.path = path
      · simp [hr, hpath]
      · simp [hr, hpath]
    · rw [if_neg hr]
      by_cases hpath : r.path = path
      · have hne : record.path ≠ path := fun h => hr (hpath.trans h.symm)
        simp [hpath, hne]
      · rw [List.find?_cons_of_neg (by simpa using hpath), ih,
          List.find?_cons_of_neg (by simpa using hpath)]

/-- A registered record is found at its path. -/
theorem file?_register_self (registry : Registry) (record : FileRecord) :
    (registry.register record).file? record.path = some record := by
  rw [file?_register, if_pos rfl]

/-- Pooling the texts of a class registers nothing. -/
@[simp] theorem files_internClass (registry : Registry) (c : Class) :
    (registry.internClass c).files = registry.files := by
  have hfoldl (texts : List Text) (start : Registry) :
      (texts.foldl intern start).files = start.files := by
    induction texts generalizing start with
    | nil => rfl
    | cons text rest ih =>
      rw [List.foldl_cons, ih, intern]
      split <;> rfl
  exact hfoldl _ registry

/-- Pooling the texts of a class changes nothing that is found. -/
@[simp] theorem file?_internClass (registry : Registry) (c : Class) (path : Text) :
    (registry.internClass c).file? path = registry.file? path := by
  rw [file?, files_internClass, file?]

/-- A class is added to the record of its file and to no other. -/
theorem addClass_of_file? {registry : Registry} {file : Text} {record : FileRecord}
    (h : registry.file? file = some record) (c : Class) :
    ∃ registry', registry.addClass file c = (registry', none) ∧ ∀ path,
      registry'.file? path = if file = path then some (record.add c) else registry.file? path := by
  refine ⟨(registry.internClass c).register (record.add c), ?_, fun path => ?_⟩
  · rw [addClass, h]
  · rw [file?_register, FileRecord.path_add, path_of_file? h, file?_internClass]

end Registry

/-- The classes that findings add to a file: where declarations are strict, those in front of the first
malformed one, and all of them otherwise. -/
def Finding.taken (strict : Bool) : List Finding → List Class
  | [] => []
  | .declared c :: rest => c :: taken strict rest
  | .malformed _ :: rest => if strict then [] else taken strict rest

/-- Where declarations are not strict, all declared classes are taken. -/
theorem Finding.taken_false (findings : List Finding) :
    taken false findings = findings.filterMap Finding.class? := by
  induction findings with
  | nil => rfl
  | cons finding rest ih =>
    cases finding with
    | declared c => exact congrArg (c :: ·) ih
    | malformed offset => exact ih

/-- Only declared classes are taken, in their order. -/
theorem Finding.taken_sublist (strict : Bool) (findings : List Finding) :
    (taken strict findings).Sublist (findings.filterMap Finding.class?) := by
  induction findings with
  | nil => exact .slnil
  | cons finding rest ih =>
    cases finding with
    | declared c => exact ih.cons_cons c
    | malformed offset =>
      rw [taken]
      split
      · exact List.nil_sublist _
      · exact ih

/-- The record that is made of a source. -/
def FileRecord.ofSource (strict : Bool) (file source : Text) : FileRecord :=
  addAll { path := file, aliases := importAliases file source, source }
    (Finding.taken strict (scan file source))

/-- The aliases of the record that is made of a source are those that its imports bind. -/
theorem FileRecord.aliases_ofSource (strict : Bool) (file source : Text) :
    (ofSource strict file source).aliases = importAliases file source := by
  rw [ofSource, aliases_addAll]

@[simp] theorem FileRecord.path_ofSource (strict : Bool) (file source : Text) :
    (ofSource strict file source).path = file := path_addAll _ _

@[simp] theorem FileRecord.source_ofSource (strict : Bool) (file source : Text) :
    (ofSource strict file source).source = source := source_addAll _ _

/-- The classes of the record that is made of a source are of its file. -/
theorem FileRecord.file_of_mem_ofSource {strict : Bool} {file source : Text} {c : Class}
    (h : c ∈ (ofSource strict file source).classes) : c.file = file := by
  obtain ⟨kept, hkept, hsub⟩ := exists_kept_of_addAll
    { path := file, aliases := importAliases file source, source }
    (Finding.taken strict (scan file source))
  rw [ofSource, hkept, List.nil_append] at h
  exact file_of_scanSteps (scanSteps_scanFrom file .empty source) c
    ((hsub.trans (Finding.taken_sublist strict _)).subset h)

namespace Intake

/-- Findings of a registered file change the record of the file and no other. -/
theorem file?_ofFindings {registry : Registry} {file : Text} {record : FileRecord}
    (h : registry.file? file = some record) (strict : Bool) (findings : List Finding) (path : Text) :
    (ofFindings registry strict file findings).1.registry.file? path =
      if file = path then some (record.addAll (Finding.taken strict findings))
      else registry.file? path := by
  have hnothing : registry.file? path = if file = path then some record else registry.file? path := by
    split
    · next heq => rw [← heq, h]
    · rfl
  induction findings generalizing registry record with
  | nil => exact hnothing
  | cons finding rest ih =>
    cases finding with
    | declared c =>
      obtain ⟨registry', hadd, hfile⟩ := registry.addClass_of_file? h c
      rw [ofFindings, hadd, Finding.taken, FileRecord.addAll_cons]
      dsimp only
      rw [ih (by rw [hfile, if_pos rfl]) (by rw [hfile]; split <;> rfl), hfile]
      split <;> rfl
    | malformed offset =>
      rw [ofFindings, Finding.taken]
      cases strict with
      | true => exact hnothing
      | false => exact ih h hnothing

/-- Taking in a source changes what is found at the path of its file and nowhere else. -/
theorem file?_register (intake : Intake) (strict : Bool) (file source path : Text) :
    (intake.register strict file source).1.registry.file? path =
      if file = path then some (.ofSource strict file source) else intake.registry.file? path := by
  have hfile := intake.registry.file?_register_self
    { path := file, aliases := importAliases file source, source }
  have hregister := file?_ofFindings hfile strict (scan file source) path
  rw [Registry.file?_register] at hregister
  refine hregister.trans ?_
  split <;> rfl

/-- An intake into a registered file stops for a malformed declaration only, and only where declarations
are strict. -/
theorem fault_of_ofFindings {registry : Registry} {file : Text} {record : FileRecord}
    (h : registry.file? file = some record) {strict : Bool} {findings : List Finding} {fault : Fault}
    (hfault : (ofFindings registry strict file findings).2 = some fault) :
    strict = true ∧ ∃ offset, Finding.malformed offset ∈ findings ∧
      fault = .malformedDeclaration file offset := by
  induction findings generalizing registry record with
  | nil => cases hfault
  | cons finding rest ih =>
    cases finding with
    | declared c =>
      obtain ⟨registry', hadd, hfile⟩ := registry.addClass_of_file? h c
      rw [ofFindings, hadd] at hfault
      obtain ⟨hstrict, offset, hmem, hfault⟩ := ih (by rw [hfile, if_pos rfl]) hfault
      exact ⟨hstrict, offset, List.mem_cons_of_mem _ hmem, hfault⟩
    | malformed offset =>
      rw [ofFindings] at hfault
      cases strict with
      | true =>
        cases hfault
        exact ⟨rfl, offset, List.mem_cons_self, rfl⟩
      | false =>
        obtain ⟨hstrict, -⟩ := ih h hfault
        cases hstrict

/-- An intake stops for a malformed declaration only, and only where declarations are strict. -/
theorem fault_of_register {intake : Intake} {strict : Bool} {file source : Text} {fault : Fault}
    (h : (intake.register strict file source).2 = some fault) :
    strict = true ∧ ∃ offset, Finding.malformed offset ∈ scan file source ∧
      fault = .malformedDeclaration file offset := by
  have hfile := intake.registry.file?_register_self
    { path := file, aliases := importAliases file source, source }
  exact fault_of_ofFindings hfile h

/-- A lenient intake of a source succeeds, and its file is then registered with the source and with the
declared classes added to none. -/
theorem register_lenient (intake : Intake) (file source : Text) :
    (intake.register false file source).2 = none ∧
      (intake.register false file source).1.registry.file? file =
        some (FileRecord.addAll { path := file, aliases := importAliases file source, source }
          ((scan file source).filterMap Finding.class?)) := by
  constructor
  · rw [Option.eq_none_iff_forall_ne_some]
    intro fault hfault
    obtain ⟨hstrict, -⟩ := fault_of_register hfault
    cases hstrict
  · rw [file?_register, if_pos rfl, FileRecord.ofSource, Finding.taken_false]

end Intake

end ClassFlattening
