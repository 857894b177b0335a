import ClassFlattening.Proofs.RegistryHistory
import ClassFlattening.Proofs.LineageOutcome

/-!
# Registries that only grow

A registry that classes are added to keeps every record with its path, its aliases, its source and its
classes; all that happens is that classes come behind those of a record. A lookup takes the first class of a
name, so what was found in a record is found in the longer one. From that it follows for all that is made of
lookups: references, the line of a class member by member, and the whole line if it ends with a class that
states no parent. A line that ends with a reference that leads nowhere may go on, since the class that the
reference means may be added.
-/

namespace ClassFlattening

/-- A record with classes behind its own. -/
def FileRecord.grow (record : FileRecord) (added : List Class) : FileRecord :=
  { record with classes := record.classes ++ added }

namespace FileRecord

variable {record : FileRecord} {name : Text} {d : Class}

theorem grow_nil (record : FileRecord) : record.grow [] = record := by rw [grow, List.append_nil]

theorem grow_grow (record : FileRecord) (added more : List Class) :
    (record.grow added).grow more = record.grow (added ++ more) := by
  rw [grow, grow, grow, List.append_assoc]

/-- A class that is found in a record is found in the longer one. -/
theorem class?_grow (h : record.class? name = some d) (added : List Class) :
    (record.grow added).class? name = some d := by
  rw [class?] at h
  rw [class?, grow, List.find?_append, h, Option.some_or]

/-- Adding a class puts it behind the others, or nothing. -/
theorem exists_grow_of_add (record : FileRecord) (c : Class) :
    ∃ added, (added = [] ∨ added = [c]) ∧ record.add c = record.grow added := by
  rw [add]
  split
  · exact ⟨[], Or.inl rfl, record.grow_nil.symm⟩
  · exact ⟨[c], Or.inr rfl, rfl⟩

end FileRecord

/-- Replacing a record leaves those in front of it and behind it as they are. -/
theorem exists_replaceRecord {files : List FileRecord} {path : Text} {record other : FileRecord}
    (hfound : (files.find? fun r => r.path == path) = some record) (hother : other.path = path) :
    ∃ front back, files = front ++ record :: back ∧ replaceRecord other files = front ++ other :: back := by
  induction files with
  | nil => cases hfound
  | cons r rest ih =>
    rw [replaceRecord, hother]
    by_cases hr : r.path = path
    · rw [List.find?_cons_of_pos (by simpa using hr)] at hfound
      cases hfound
      exact ⟨[], rest, rfl, if_pos hr⟩
    · rw [List.find?_cons_of_neg (by simpa using hr)] at hfound
      obtain ⟨front, back, hfiles, hreplaced⟩ := ih hfound
      refine ⟨r :: front, back, by rw [hfiles, List.cons_append], ?_⟩
      rw [if_neg hr, hreplaced, List.cons_append]

namespace Registry

/-- The registry behind classes that are offered to files one by one. -/
def offerAll (registry : Registry) (offers : List (Text × Class)) : Registry :=
  (offers.map fun offer => Call.addClass offer.1 offer.2).foldl Call.apply registry

/-- A registry has all that another one has, and in each record perhaps more classes behind those of the
other. -/
def Extends (after registry : Registry) : Prop :=
  ∀ path record, registry.file? path = some record →
    ∃ added, after.file? path = some (record.grow added)

section Offers

variable {registry : Registry} {file : Text} {record : FileRecord}

/-- A class for a file that is not registered is refused. -/
theorem addClass_of_file?_eq_none (h : registry.file? file = none) (skipped : List SkippedDeclaration)
    (c : Class) : (Intake.mk registry skipped).addClass file c = .error (.fileNotRegistered file) := by
  rw [Intake.addClass, addClass, h]

/-- A class for a registered file is added to the record of the file or dropped, and all other records stay
as they are and where they are. -/
theorem exists_files_of_addClass (h : registry.file? file = some record) (c : Class) :
    ∃ after, registry.addClass file c = (after, none) ∧
      ∃ front back added, (added = [] ∨ added = [c]) ∧ registry.files = front ++ record :: back ∧
        after.files = front ++ record.grow added :: back := by
  have hpath : (record.add c).path = file := by rw [FileRecord.path_add, path_of_file? h]
  obtain ⟨added, hadded, hgrow⟩ := record.exists_grow_of_add c
  obtain ⟨front, back, hfiles, hreplaced⟩ := exists_replaceRecord h hpath
  refine ⟨(registry.internClass c).register (record.add c), by rw [addClass, h],
    front, back, added, hadded, hfiles, ?_⟩
  rw [register, files_internClass, hreplaced, hgrow]

end Offers

namespace Extends

variable {registry between after : Registry} {reference file : Text} {c d : Class} {line : List Class}

theorem refl (registry : Registry) : registry.Extends registry := by
  intro path record hfound
  exact ⟨[], by rw [record.grow_nil, hfound]⟩

theorem trans (hafter : after.Extends between) (hbetween : between.Extends registry) :
    after.Extends registry := by
  intro path record hfound
  obtain ⟨added, hadded⟩ := hbetween path record hfound
  obtain ⟨more, hmore⟩ := hafter path _ hadded
  exact ⟨added ++ more, by rw [hmore, record.grow_grow]⟩

/-- A registry that a class is offered to grows. -/
theorem apply (registry : Registry) (file : Text) (c : Class) :
    ((Call.addClass file c).apply registry).Extends registry := by
  rw [Call.apply]
  cases hfile : registry.file? file with
  | none =>
    rw [addClass, hfile]
    exact refl registry
  | some found =>
    obtain ⟨after, hafter, hkept⟩ := registry.addClass_of_file? hfile c
    rw [hafter]
    intro path record hrecord
    rw [hkept]
    split
    · next heq =>
      subst heq
      rw [hfile] at hrecord
      cases hrecord
      obtain ⟨added, -, hgrow⟩ := found.exists_grow_of_add c
      exact ⟨added, congrArg some hgrow⟩
    · exact ⟨[], by rw [hrecord, record.grow_nil]⟩

/-- A registry that classes are offered to grows. -/
theorem offerAll (registry : Registry) (offers : List (Text × Class)) :
    (registry.offerAll offers).Extends registry := by
  induction offers generalizing registry with
  | nil => exact refl registry
  | cons offer rest ih => exact (ih _).trans (apply registry offer.1 offer.2)

/-- A class that is found in a file is found there afterwards. -/
theorem class? (h : after.Extends registry) {path name : Text} (hfound : registry.class? path name = some d) :
    after.class? path name = some d := by
  obtain ⟨record, hrecord, hclass⟩ := Option.bind_eq_some_iff.1 hfound
  obtain ⟨added, hadded⟩ := h path record hrecord
  rw [Registry.class?, hadded, Option.bind_some, FileRecord.class?_grow hclass]

/-- What a reference stands for it stands for afterwards. -/
theorem resolve? (h : after.Extends registry) (hfound : registry.resolve? reference file = some d) :
    after.resolve? reference file = some d := by
  rw [Registry.resolve?] at hfound ⊢
  cases hcut : Text.cutAtFirst? (· == '.') reference.trim with
  | none =>
    rw [hcut] at hfound
    exact h.class? hfound
  | some cut =>
    rw [hcut] at hfound
    obtain ⟨record, hrecord, hbehind⟩ := Option.bind_eq_some_iff.1 hfound
    obtain ⟨target, htarget, hclass⟩ := Option.bind_eq_some_iff.1 hbehind
    -- The record that the alias is looked up in may have grown, but its aliases are the same.
    obtain ⟨added, hadded⟩ := h file record hrecord
    refine Option.bind_eq_some_iff.2 ⟨record.grow added, hadded, ?_⟩
    exact Option.bind_eq_some_iff.2 ⟨target, htarget, h.class? hclass⟩

/-- A member of the line of a class stays where it is on the line. -/
theorem lineMember? (h : after.Extends registry) {n : Nat} (hmember : registry.lineMember? c n = some d) :
    after.lineMember? c n = some d := by
  induction n generalizing d with
  | zero => exact hmember
  | succ n ih =>
    obtain ⟨below, hbelow, hparent⟩ := Option.bind_eq_some_iff.1 hmember
    obtain ⟨reference, hreference, hresolve⟩ := Option.bind_eq_some_iff.1 hparent
    rw [Registry.lineMember?, ih hbelow, Option.bind_some, parentOf?, hreference, Option.bind_some,
      h.resolve? hresolve]

/-- A stretch of the line of a class stays one. -/
theorem isStretch (h : after.Extends registry) (hline : registry.IsStretch c line) : after.IsStretch c line where
  members := by
    intro n hn
    have hmember := hline.members n hn
    have hlt : n < (c :: line).length := Nat.lt_succ_of_le hn
    rw [List.getElem?_eq_getElem hlt] at hmember ⊢
    exact h.lineMember? hmember
  distinct := hline.distinct

/-- The line of a class is collected as before if it ends with a class that states no parent. -/
theorem ancestors (h : after.Extends registry) (hline : registry.ancestors c = .ok line)
    (htop : (line.getLast?.getD c).parent = none) : after.ancestors c = .ok line := by
  obtain ⟨hstretch, hfits, -⟩ := (ancestors_eq_ok_iff registry c line).1 hline
  refine (ancestors_eq_ok_iff after c line).2 ⟨h.isStretch hstretch, hfits, ?_⟩
  have hlast : after.lineMember? c line.length = some (line.getLast?.getD c) := by
    rw [(h.isStretch hstretch).members _ (Nat.le_refl _), ← List.getLast?_cons, List.getLast?_eq_getElem?]
    rfl
  rw [Registry.lineMember?, hlast, Option.bind_some, parentOf?, htop, Option.bind_none]

end Extends

/-- Adding classes to a registry, whatever is registered in it. A class for a file that is not registered is
refused, and the registry stays as it is. A class for a registered file comes behind the classes of that file
or is dropped, and nothing else changes in any record. So after any number of classes, added or refused, each
reference that stood for a class stands for the same class, and the line of each class that was collected up
to a class that states no parent is collected as before. -/
theorem addClass_only_grows (registry : Registry) :
    (∀ file c, registry.file? file = none →
        registry.addClass file c = (registry, some (.fileNotRegistered file)) ∧
          (∀ skipped, (Intake.mk registry skipped).addClass file c = .error (.fileNotRegistered file)) ∧
          (Call.addClass file c).apply registry = registry) ∧
      (∀ file c record, registry.file? file = some record →
        ∃ after, registry.addClass file c = (after, none) ∧
          (∀ skipped, (Intake.mk registry skipped).addClass file c = .ok ⟨after, skipped⟩) ∧
          (Call.addClass file c).apply registry = after ∧
          ∃ front back added, (added = [] ∨ added = [c]) ∧ registry.files = front ++ record :: back ∧
            after.files = front ++ record.grow added :: back) ∧
      ∀ offers,
        (∀ reference file d, registry.resolve? reference file = some d →
          (registry.offerAll offers).resolve? reference file = some d) ∧
        ∀ c line, registry.ancestors c = .ok line → (line.getLast?.getD c).parent = none →
          (registry.offerAll offers).ancestors c = .ok line := by
  refine ⟨fun file c hfile => ⟨by rw [addClass, hfile],
    fun skipped => addClass_of_file?_eq_none hfile skipped c, apply_offer_of_none hfile c⟩,
    fun file c record hfile => ?_, fun offers => ?_⟩
  · obtain ⟨after, hafter, hfiles⟩ := exists_files_of_addClass hfile c
    refine ⟨after, hafter, fun skipped => ?_, ?_, hfiles⟩
    · rw [Intake.addClass, hafter]
    · rw [Call.apply, hafter]
  · have hextends := Extends.offerAll registry offers
    exact ⟨fun _ _ _ => hextends.resolve?, fun _ _ => hextends.ancestors⟩

/-- A class that inherits from one of another file. -/
def imported : Class := { name := "Bird".toList, parent := some "base.Animal".toList, file := "bird".toList }

/-- The class that it inherits from. -/
def importedBase : Class := { name := "Animal".toList, file := "animal".toList }

/-- The two files of these classes. -/
def birdAndAnimal : Registry where
  files := [
    { path := "bird".toList, aliases := [("base".toList, "animal".toList)], classes := [imported] },
    { path := "animal".toList, classes := [importedBase] }]

/-- Classes for these files: one whose name is taken, with a parent; one for a file that is not registered;
and a new one. -/
def birdOffers : List (Text × Class) :=
  [("animal".toList, { importedBase with parent := some "Being".toList }),
    ("nest".toList, importedBase),
    ("animal".toList, { name := "Being".toList, file := "animal".toList })]

/-- The class without a file is refused, and the line of the class that inherits is collected as before. -/
theorem addClass_only_grows_birdAndAnimal :
    (Intake.mk birdAndAnimal []).addClass "nest".toList importedBase =
        .error (.fileNotRegistered "nest".toList) ∧
      (∃ after, (Call.addClass "animal".toList importedBase).apply birdAndAnimal = after ∧
        after.classCount = 2) ∧
      (birdAndAnimal.offerAll birdOffers).resolve? "base.Animal".toList "bird".toList = some importedBase ∧
      (birdAndAnimal.offerAll birdOffers).ancestors imported = .ok [importedBase] := by
  obtain ⟨hmissing, hfound, hoffers⟩ := addClass_only_grows birdAndAnimal
  obtain ⟨hresolve, hancestors⟩ := hoffers birdOffers
  refine ⟨(hmissing _ importedBase (by decide)).2.1 [], ?_, hresolve _ _ _ (by decide),
    hancestors _ _ (by decide) rfl⟩
  obtain ⟨after, -, -, hafter, -⟩ := hfound "animal".toList importedBase _ rfl
  exact ⟨after, hafter, by rw [← hafter]; decide⟩

/-- A line that ended with a reference that led nowhere goes on when the class that it means is added. -/
example :
    (offerAll { files := [{ path := "bird".toList }] }
      [("bird".toList, { imported with name := "Animal".toList })]).ancestors
        { imported with parent := some "Animal".toList } =
      .ok [{ imported with name := "Animal".toList }] := by
  decide

end Registry

end ClassFlattening
