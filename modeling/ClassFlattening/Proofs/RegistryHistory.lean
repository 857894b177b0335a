import ClassFlattening.Proofs.Rearrangement
import Mathlib.Algebra.GroupWithZero.Nat
import Mathlib.Data.List.Induction

/-!
# What a registry remembers

A registry is filled by calls: files are registered, as a record or as a source, classes are added and
texts are pooled. Each call is a run of single steps, a source first registering its file and then
offering its classes up to the first declaration that stops the intake. What the registry holds can be
told from these steps alone. The order of the files is that of their first registration, the classes of a
file are those that it was last registered with and those offered to it since then, the first of each name,
and the pool has the texts of all classes that were ever offered to a registered file.

A record is registered as it is, and a class that is offered is added only if no class in the record has its
name. So the names of the added classes are different, and those in a record are exactly if they were when it
was registered. In the record of a file names are meant to be different: records are made without classes,
and their classes are offered to them afterwards.
-/

namespace ClassFlattening

/-- Adding classes keeps a record, with some of the new classes behind its own. Each of these has a name of
its own, which was not there before. -/
theorem FileRecord.exists_added_of_addAll (record : FileRecord) (classes : List Class) :
    ∃ added, record.addAll classes = { record with classes := record.classes ++ added } ∧
      added.Sublist classes ∧ (added.map Class.name).Nodup ∧
      ∀ c ∈ added, record.class? c.name = none := by
  induction classes generalizing record with
  | nil => exact ⟨[], by rw [List.append_nil]; rfl, .slnil, List.nodup_nil, by simp⟩
  | cons c rest ih =>
    obtain ⟨added, hadded, hsub, hdistinct, hnew⟩ := ih (record.add c)
    rw [addAll_cons, hadded]
    cases hname : record.class? c.name with
    | some other =>
      have hsame : record.add c = record := by rw [add, hname]
      rw [hsame] at hnew ⊢
      exact ⟨added, rfl, hsub.cons c, hdistinct, hnew⟩
    | none =>
      have hput : record.add c = { record with classes := record.classes ++ [c] } := by rw [add, hname]
      rw [hput] at hnew ⊢
      -- A class that comes later is found neither in the record nor as the class that was just added.
      have hnone : ∀ d ∈ added, record.class? d.name = none ∧ c.name ≠ d.name := by
        intro d hd
        have hd := hnew d hd
        rw [class?, List.find?_append, Option.or_eq_none_iff] at hd
        exact ⟨hd.1, by simpa using hd.2⟩
      refine ⟨c :: added, by simp, hsub.cons_cons c, ?_, List.forall_mem_cons.2 ⟨hname, fun d hd => (hnone d hd).1⟩⟩
      rw [List.map_cons, List.nodup_cons, List.mem_map]
      refine ⟨?_, hdistinct⟩
      rintro ⟨d, hd, hsame⟩
      exact (hnone d hd).2 hsame.symm

/-- Adding classes takes no name twice, and undoes no name that is there twice. -/
theorem FileRecord.hasDistinctNames_addAll_iff (record : FileRecord) (classes : List Class) :
    (record.addAll classes).HasDistinctNames ↔ record.HasDistinctNames := by
  constructor
  · intro h
    obtain ⟨added, hadded, -⟩ := record.exists_added_of_addAll classes
    rw [HasDistinctNames, hadded, List.map_append] at h
    exact h.of_append_left
  · intro h
    induction classes generalizing record with
    | nil => exact h
    | cons c rest ih => exact ih _ (h.add c)

namespace Registry

/-- One change of a registry. -/
inductive Step where
  /-- A record is registered, whatever it holds. -/
  | register (record : FileRecord)
  /-- A class is offered to a file, in vain if the file is not registered. -/
  | offer (file : Text) (c : Class)
  | pool (text : Text)

namespace Step

/-- The registry behind a step. -/
def apply (registry : Registry) : Step → Registry
  | register record => registry.register record
  | offer file c => (registry.addClass file c).1
  | pool text => registry.intern text

/-- The registry behind steps that start with an empty one. -/
def run (steps : List Step) : Registry := steps.foldl apply {}

/-- The file that a step registers. -/
def registered? : Step → Option Text
  | register record => some record.path
  | _ => none

end Step

/-- What can be asked of a registry. -/
inductive Call where
  | registerFile (record : FileRecord)
  | registerSource (strict : Bool) (file source : Text)
  | addClass (file : Text) (c : Class)
  | intern (text : Text)

namespace Call

/-- The registry behind a call. A call that fails leaves what was done before the fault. -/
def apply (registry : Registry) : Call → Registry
  | registerFile record => registry.register record
  | registerSource strict file source => (Intake.register { registry } strict file source).1.registry
  | addClass file c => (registry.addClass file c).1
  | intern text => registry.intern text

/-- The registry behind calls that start with an empty one. -/
def run (calls : List Call) : Registry := calls.foldl apply {}

/-- The steps of a call. -/
def steps : Call → List Step
  | registerFile record => [.register record]
  | registerSource strict file source =>
    .register { path := file, aliases := importAliases file source, source } ::
      (Finding.taken strict (scan file source)).map (.offer file)
  | addClass file c => [.offer file c]
  | intern text => [.pool text]

/-- The findings of a registered file offer their classes one by one. -/
theorem ofFindings_eq_foldl {registry : Registry} {file : Text} {record : FileRecord}
    (h : registry.file? file = some record) (strict : Bool) (findings : List Finding) :
    (Intake.ofFindings registry strict file findings).1.registry =
      ((Finding.taken strict findings).map (Step.offer file)).foldl Step.apply registry := by
  induction findings generalizing registry record with
  | nil => rfl
  | cons finding rest ih =>
    cases finding with
    | declared c =>
      obtain ⟨registry', hadd, hfile⟩ := registry.addClass_of_file? h c
      rw [Intake.ofFindings, hadd, Finding.taken, List.map_cons, List.foldl_cons, Step.apply, hadd]
      exact ih (by rw [hfile, if_pos rfl])
    | malformed offset =>
      rw [Intake.ofFindings, Finding.taken]
      cases strict with
      | true => rfl
      | false => exact ih h

/-- A call does what its steps do. -/
theorem apply_eq_foldl (registry : Registry) (call : Call) :
    call.apply registry = call.steps.foldl Step.apply registry := by
  cases call with
  | registerSource strict file source =>
    exact ofFindings_eq_foldl (registry.file?_register_self
      { path := file, aliases := importAliases file source, source }) strict (scan file source)
  | _ => rfl

/-- Calls do what all their steps do. -/
theorem run_eq_run_steps (calls : List Call) : run calls = Step.run (calls.flatMap steps) := by
  rw [run, Step.run, List.foldl_flatMap]
  congr 1
  funext registry call
  exact call.apply_eq_foldl registry

end Call

section Pool

variable (registry : Registry)

/-- Pooling a text registers nothing. -/
theorem files_intern (text : Text) : (registry.intern text).files = registry.files := by
  rw [intern]
  split <;> rfl

variable {registry}

end Pool

/-- What is offered to a file that is not registered changes nothing. -/
theorem apply_offer_of_none {registry : Registry} {file : Text} (h : registry.file? file = none)
    (c : Class) : (Step.offer file c).apply registry = registry := by
  rw [Step.apply, addClass, h]

/-- What is offered to a registered file is pooled and added to the record of the file. -/
theorem apply_offer_of_some {registry : Registry} {file : Text} {record : FileRecord}
    (h : registry.file? file = some record) (c : Class) :
    (Step.offer file c).apply registry = (registry.internClass c).register (record.add c) := by
  rw [Step.apply, addClass, h]

/-- Replacing a record keeps the order of the paths, and a new path comes last. -/
theorem map_path_replaceRecord (record : FileRecord) (files : List FileRecord) :
    (replaceRecord record files).map FileRecord.path =
      if record.path ∈ files.map FileRecord.path then files.map FileRecord.path
      else files.map FileRecord.path ++ [record.path] := by
  induction files with
  | nil => rfl
  | cons r rest ih =>
    rw [replaceRecord]
    by_cases hr : r.path = record.path
    · simp [hr]
    · rw [if_neg hr, List.map_cons, ih, List.map_cons]
      by_cases hrest : record.path ∈ rest.map FileRecord.path
      · rw [if_pos hrest, if_pos (List.mem_cons_of_mem _ hrest)]
      · rw [if_neg hrest, if_neg (by simpa [Ne.symm hr] using hrest), List.cons_append]

/-- A record is found at a path exactly if the path is one of those of the files. -/
theorem file?_eq_none_iff {registry : Registry} {path : Text} :
    registry.file? path = none ↔ path ∉ registry.files.map FileRecord.path := by
  rw [file?, List.find?_eq_none, List.mem_map]
  constructor
  · rintro h ⟨record, hrecord, rfl⟩
    exact h record hrecord (beq_self_eq_true _)
  · intro h record hrecord hpath
    exact h ⟨record, hrecord, beq_iff_eq.1 hpath⟩

/-- Where the paths of the files are different, each record is found at its own. -/
theorem file?_of_mem {registry : Registry} (h : (registry.files.map FileRecord.path).Nodup)
    {record : FileRecord} (hrecord : record ∈ registry.files) :
    registry.file? record.path = some record := by
  cases hfile : registry.file? record.path with
  | none => exact absurd (List.mem_map_of_mem hrecord) (file?_eq_none_iff.1 hfile)
  | some other =>
    rw [List.inj_on_of_nodup_map h (List.mem_of_find?_eq_some hfile) hrecord (path_of_file? hfile)]

/-- A text at the end of a list counts as new unless it is in front already. -/
theorem eraseDups_concat (texts : List Text) (text : Text) :
    (texts ++ [text]).eraseDups =
      if text ∈ texts then texts.eraseDups else texts.eraseDups ++ [text] := by
  rw [List.eraseDups_append, List.removeAll, List.filter_cons, List.filter_nil]
  by_cases h : text ∈ texts
  · simp [h]
  · simp [h, List.eraseDups_cons]

/-- The paths of the files are those that were registered, in the order of their first registration. -/
theorem map_path_run (steps : List Step) :
    (Step.run steps).files.map FileRecord.path = (steps.filterMap Step.registered?).eraseDups := by
  induction steps using List.reverseRecOn with
  | nil => rfl
  | append_singleton steps step ih =>
    rw [Step.run, List.foldl_append, ← Step.run, List.foldl_cons, List.foldl_nil,
      List.filterMap_append]
    cases step with
    | register record =>
      rw [List.filterMap_cons_some (by rfl), List.filterMap_nil, eraseDups_concat, Step.apply,
        register, map_path_replaceRecord, ih]
      simp only [List.mem_eraseDups]
    | offer file c =>
      rw [List.filterMap_cons_none (by rfl), List.filterMap_nil, List.append_nil, ← ih]
      cases hfile : (Step.run steps).file? file with
      | none =>
        rw [apply_offer_of_none hfile]
      | some record =>
        have hmem : (record.add c).path ∈ (Step.run steps).files.map FileRecord.path := by
          rw [FileRecord.path_add]
          exact List.mem_map_of_mem (List.mem_of_find?_eq_some hfile)
        rw [apply_offer_of_some hfile, register, map_path_replaceRecord, files_internClass, if_pos hmem]
    | pool text =>
      rw [List.filterMap_cons_none (by rfl), List.filterMap_nil, List.append_nil, Step.apply,
        files_intern, ih]

/-- A record that is registered with a name twice keeps it, and takes a third class of the name no more than
any other record. -/
example (c : Class) :
    (Call.run [.registerFile { path := c.file, classes := [c, c] }, .addClass c.file c]).classes = [c, c] := by
  simp [Call.run, Call.apply, addClass, register, replaceRecord, file?, FileRecord.add, FileRecord.class?,
    classes]

end Registry

end ClassFlattening
