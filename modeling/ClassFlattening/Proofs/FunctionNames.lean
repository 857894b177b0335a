import ClassFlattening.Proofs.MethodSelection
import ClassFlattening.Proofs.RenamedMethods
import Mathlib.Data.List.Count
import Mathlib.Data.List.Nodup
import Mathlib.Data.List.Infix

/-!
# Names of the functions of a flattened class

The functions of a flattened class come from five sources, and all but the accessors keep out of each
other's way: nothing is retargeted or copied under a name that is taken. Two things are not looked at. A
copied method that is called like its donor is renamed with it and then has the name of the class; and an
accessor is written whatever stands under its name already. `nodup_names_of_generate_iff` says that two
functions have one name for no other reason.
-/

namespace ClassFlattening

/-- Where a copied method was read from a text, the copy is read as a function of the name under which
it stands. -/
theorem Offer.read_copied (offer : Offer) {c : Class} {t rest : Text}
    (h : Member.read t = (.method offer.method, rest)) (hdonor : isIdentifier offer.donor = true)
    (hname : isIdentifier c.name = true) (hdonor' : offer.donor ∉ methodWords)
    (hname' : c.name ∉ methodWords) :
    ∃ m, Member.read (offer.copied c).source = (.method m, []) ∧ m.name = offer.nameIn c := by
  obtain ⟨p, hp, -, hmethod⟩ := Member.read_eq_method_iff.1 h
  obtain ⟨p', hrenamed, htext, -⟩ := hp.exists_renamedTo hdonor hname hdonor'
  refine ⟨p'.method, ?_, ?_⟩
  · have hread := (hp.renamedTo hrenamed hname hdonor' hname').read_text []
    rw [List.append_nil, ← htext] at hread
    rw [copied, hmethod]
    exact hread
  · rw [nameIn, hmethod]
    exact hrenamed.name

namespace Class

variable (c : Class) (settings : Settings) (ancestors mixins : List Class)

/-- What is copied into a class by renaming its donor: the ordinary methods that it inherits and what its
mixins add. -/
def copies : List Offer :=
  c.inherited ancestors ++
    (mixedIn (c.ownNames ++ Offer.names (c.inherited ancestors)) mixins).flatMap Prod.snd

/-- The names under which the methods of a flattened class stand in it, the accessors apart. -/
def methodNames : List Text :=
  c.ownNames ++ Offer.names (c.lifecycle ancestors) ++ (c.copies ancestors mixins).map (·.nameIn c)

/-- The names of the accessors of a class. -/
def accessorNames : List Text := (c.properties.flatMap (accessors settings c)).map FlatFunction.name

/-- The functions of a flattened class with the names under which they stand in it. -/
def namedFunctions : List (Text × FlatFunction) :=
  c.methods.map (fun m => (m.name, ⟨m.name, m.source⟩)) ++
    (c.lifecycle ancestors).map (fun offer => (offer.method.name, offer.retargeted c)) ++
    (c.copies ancestors mixins).map (fun offer => (offer.nameIn c, offer.copied c)) ++
    (c.properties.flatMap (accessors settings c)).map fun f => (f.name, f)

/-- These are all the functions, in order. -/
theorem map_snd_namedFunctions :
    (c.namedFunctions settings ancestors mixins).map Prod.snd =
      (c.flatStruct settings ancestors mixins).functions := by
  simp only [namedFunctions, copies, flatStruct, List.map_append, List.map_map, List.map_flatMap,
    List.append_assoc]
  simp only [Function.comp_def, List.map_id_fun', id_eq]

/-- Their names are those of the methods and those of the accessors. -/
theorem map_fst_namedFunctions :
    (c.namedFunctions settings ancestors mixins).map Prod.fst =
      c.methodNames ancestors mixins ++ c.accessorNames settings := by
  simp only [namedFunctions, methodNames, accessorNames, ownNames, Offer.names, List.map_append, List.map_map]
  rfl

variable {c}

/-- What is copied or retargeted into a class is kept under names that differ from each other and from
those of the class's own methods. -/
theorem nodup_keptNames (hown : c.ownNames.Nodup) :
    (c.ownNames ++ Offer.names (c.lifecycle ancestors) ++ Offer.names (c.copies ancestors mixins)).Nodup := by
  have hlife (n : Text) (hn : n ∈ Offer.names (c.lifecycle ancestors)) :
      n ∈ lifecycleNames ∧ n ∉ c.ownNames := by
    rw [lifecycle_eq] at hn
    simpa using (names_filterMap_nearestOffer?_sublist ancestors _).subset hn
  have hinherited (n : Text) (hn : n ∈ Offer.names (c.inherited ancestors)) :=
    (c.mem_names_inherited ancestors n).1 hn
  have hmixed (n : Text) (hn : n ∈ Offer.names ((mixedIn (c.ownNames ++ Offer.names
      (c.inherited ancestors)) mixins).flatMap Prod.snd)) :
      n ∉ lifecycleNames ∧ n ∉ c.ownNames ++ Offer.names (c.inherited ancestors) := by
    rw [flatMap_mixedIn, mem_names_firstOfEachName] at hn
    simp only [Method.isOrdinary_eq] at hn
    rw [names_filter_offers fun n => n ∉ lifecycleNames] at hn
    exact ⟨by simpa using (List.mem_filter.1 hn.1).2, hn.2⟩
  have hcopies : (Offer.names (c.copies ancestors mixins)).Nodup := by
    rw [copies, Offer.names, List.map_append, ← Offer.names, ← Offer.names, List.nodup_append]
    refine ⟨?_, ?_, ?_⟩
    · exact nodup_names_firstOfEachName _ _
    · rw [flatMap_mixedIn]
      exact nodup_names_firstOfEachName _ _
    · rintro n hn _ hn' rfl
      exact (hmixed n hn').2 (List.mem_append_right _ hn)
  refine List.nodup_append.2 ⟨List.nodup_append.2 ⟨hown, ?_, ?_⟩, hcopies, ?_⟩
  · rw [lifecycle_eq]
    have hnames : lifecycleNames.Nodup := by decide
    exact (names_filterMap_nearestOffer?_sublist ancestors _).nodup (hnames.filter _)
  · rintro n hn _ hn' rfl
    exact (hlife n hn').2 hn
  · rintro n hn _ hn' rfl
    rw [copies, Offer.names, List.map_append, ← Offer.names, ← Offer.names, List.mem_append] at hn'
    rcases List.mem_append.1 hn with hn | hn
    · rcases hn' with hn' | hn'
      · exact (hinherited n hn').2.2 hn
      · exact (hmixed n hn').2 (List.mem_append_left _ hn)
    · rcases hn' with hn' | hn'
      · exact (hinherited n hn').2.1 (hlife n hn).1
      · exact (hmixed n hn').1 (hlife n hn).1

/-- The methods of a flattened class stand under different names exactly when at most one of them stands
under the name of the class. -/
theorem nodup_methodNames_iff (hown : c.ownNames.Nodup) :
    (c.methodNames ancestors mixins).Nodup ↔ (c.methodNames ancestors mixins).count c.name ≤ 1 := by
  rw [List.nodup_iff_count_le_one]
  refine ⟨fun h => h c.name, fun h n => ?_⟩
  by_cases hn : n = c.name
  · exact hn ▸ h
  -- Under any other name stands what is kept under it.
  have hcopies : ((c.copies ancestors mixins).map (·.nameIn c)).count n ≤
      (Offer.names (c.copies ancestors mixins)).count n := by
    rw [Offer.names, List.count_eq_countP, List.count_eq_countP, List.countP_map, List.countP_map]
    refine List.countP_mono_left fun offer _ hoffer => ?_
    simp only [Function.comp_apply, beq_iff_eq, Offer.nameIn] at hoffer ⊢
    split at hoffer
    · exact absurd hoffer.symm hn
    · exact hoffer
  have hkept := List.nodup_iff_count_le_one.1 (nodup_keptNames ancestors mixins hown) n
  rw [List.count_append] at hkept
  rw [methodNames, List.count_append]
  omega

/-- The accessors of a class have different names if its properties have and neither prefix starts the
other. -/
theorem nodup_accessorNames (hproperties : (c.properties.map Property.name).Nodup)
    (hgetter : ¬ settings.getterPrefix <+: settings.setterPrefix)
    (hsetter : ¬ settings.setterPrefix <+: settings.getterPrefix) :
    (c.accessorNames settings).Nodup := by
  have hapart (s t : Text) : settings.getterPrefix ++ s ≠ settings.setterPrefix ++ t := by
    intro heq
    have hprefix := heq ▸ List.prefix_append settings.getterPrefix s
    rcases List.prefix_or_prefix_of_prefix hprefix (List.prefix_append settings.setterPrefix t) with h | h
    · exact hgetter h
    · exact hsetter h
  have hnames (p : Property) (n : Text) (hn : n ∈ (accessors settings c p).map FlatFunction.name) :
      n = settings.getterPrefix ++ p.name ∨ n = settings.setterPrefix ++ p.name := by
    rw [accessors] at hn
    split at hn
    · simpa [getter, setter] using hn
    · exact Or.inl (by simpa [getter] using hn)
  rw [accessorNames, List.map_flatMap, List.nodup_flatMap]
  constructor
  · intro p _
    rw [accessors]
    split
    · simpa [getter, setter] using hapart p.name p.name
    · simp
  · rw [List.nodup_iff_pairwise_ne, List.pairwise_map] at hproperties
    refine hproperties.imp fun {p q} hpq => ?_
    apply List.disjoint_left.2
    intro n hp hq
    rcases hnames p n hp with rfl | rfl <;> rcases hnames q _ hq with heq | heq
    · exact hpq (List.append_cancel_left heq)
    · exact hapart _ _ heq
    · exact hapart _ _ heq.symm
    · exact hpq (List.append_cancel_left heq)

/-- The functions of a generated class have different names exactly when no accessor has the name of a
method and at most one method stands under the name of the class, for every class whose own methods and
whose properties have different names and for prefixes of which neither starts the other. No two of the
methods that a class declares, inherits and takes from mixins are in each other's way but for the name of
the class, which a copied method gets when it is called like its donor. -/
theorem nodup_names_of_generate_iff {settings : Settings} {file : Text} {registry : Registry} {text : Text}
    (hown : c.ownNames.Nodup) (hproperties : (c.properties.map Property.name).Nodup)
    (hgetter : ¬ settings.getterPrefix <+: settings.setterPrefix)
    (hsetter : ¬ settings.setterPrefix <+: settings.getterPrefix)
    (h : c.generate settings file registry = .ok text) :
    ∃ ancestors flat, registry.ancestors c = .ok ancestors ∧
      c.flatten settings file registry = .ok flat ∧ text = flat.text ∧
      let named := c.namedFunctions settings ancestors (c.resolvedMixins registry file)
      let methods := c.methodNames ancestors (c.resolvedMixins registry file)
      named.map Prod.snd = flat.functions ∧
        ((named.map Prod.fst).Nodup ↔
          (∀ n ∈ c.accessorNames settings, n ∉ methods) ∧ methods.count c.name ≤ 1) ∧
        ∀ offer ∈ c.copies ancestors (c.resolvedMixins registry file), ∀ t rest,
          Member.read t = (.method offer.method, rest) →
          isIdentifier offer.donor = true → isIdentifier c.name = true →
          offer.donor ∉ methodWords → c.name ∉ methodWords →
          ∃ m, Member.read (offer.copied c).source = (.method m, []) ∧ m.name = offer.nameIn c := by
  obtain ⟨flat, hflat, htext⟩ := (c.generate_eq_ok_iff settings file registry text).1 h
  obtain ⟨_, ancestors, hancestors, _, rfl⟩ := (c.flatten_eq_ok_iff settings file registry flat).1 hflat
  refine ⟨ancestors, _, hancestors, hflat, htext, c.map_snd_namedFunctions settings ancestors _, ?_,
    fun offer _ t rest => offer.read_copied⟩
  rw [map_fst_namedFunctions, List.nodup_append, nodup_methodNames_iff ancestors _ hown]
  constructor
  · rintro ⟨hcount, -, hapart⟩
    exact ⟨fun n hn hmethod => hapart n hmethod n hn rfl, hcount⟩
  · rintro ⟨hfree, hcount⟩
    refine ⟨hcount, nodup_accessorNames settings hproperties hgetter hsetter, ?_⟩
    rintro n hmethod _ hn rfl
    exact hfree n hn hmethod

/-- A method with nothing in its body. -/
def emptyMethod (name owner : String) : Method where
  name := name.toList
  source := "fn ".toList ++ name.toList ++ "(self: *".toList ++ owner.toList ++ ") void \x7b\x7d".toList
  signature := "fn ".toList ++ name.toList ++ "(self: *".toList ++ owner.toList ++ ") void".toList
  returnType := "void".toList
  isStatic := false

/-- A class of one file with such methods and with properties that can be written. -/
def vehicle (name : String) (parent : Option String) (mixins properties methods : List String) : Class where
  name := name.toList
  parent := parent.map String.toList
  mixins := mixins.map String.toList
  methods := methods.map (emptyMethod · name)
  properties := properties.map fun p => ⟨p.toList, "u8".toList, none, .readWrite⟩
  file := "f".toList

/-- A class whose methods come from itself, its parent and a mixin, with a property. -/
def car : Class := vehicle "Car" (some "Vehicle") ["Radio"] ["gear"] ["drive"]

/-- A class with a property whose getter has the name of a method of its parent. -/
def truck : Class := vehicle "Truck" (some "Vehicle") [] ["speed"] ["drive"]

/-- A class with a method of its own name, like its parent. -/
def bus : Class := vehicle "Bus" (some "Vehicle") [] [] ["Bus"]

/-- The three, their parent and the mixin in one file. -/
def garage : Registry where
  files := [{
    path := "f".toList
    classes := [
      car, truck, bus,
      vehicle "Vehicle" none [] [] ["init", "get_speed", "drive", "Vehicle"],
      vehicle "Radio" none [] [] ["tune", "drive", "init"]] }]

/-- The functions of the car have different names: those of the class, what it takes from its parent and
from its mixin, and the accessors of its property. -/
theorem nodup_names_car :
    ∃ ancestors flat, garage.ancestors car = .ok ancestors ∧
      car.flatten {} "f".toList garage = .ok flat ∧
      let named := car.namedFunctions {} ancestors (car.resolvedMixins garage "f".toList)
      named.map Prod.snd = flat.functions ∧ (named.map Prod.fst).Nodup ∧
        named.map Prod.fst =
          ["drive", "init", "get_speed", "Car", "tune", "get_gear", "set_gear"].map String.toList := by
  have hown : car.ownNames.Nodup := List.nodup_iff_pairwise_ne.2 (by decide)
  have hproperties : (car.properties.map Property.name).Nodup := List.nodup_iff_pairwise_ne.2 (by decide)
  have hgenerate : car.generate {} "f".toList garage = .ok _ := rfl
  obtain ⟨ancestors, flat, hancestors, hflat, _, hfunctions, hnodup, _⟩ :=
    nodup_names_of_generate_iff hown hproperties (by decide) (by decide) hgenerate
  refine ⟨ancestors, flat, hancestors, hflat, hfunctions, ?_⟩
  obtain rfl : ancestors = _ := Except.ok.inj (hancestors.symm.trans rfl)
  exact ⟨hnodup.2 ⟨by decide, by decide⟩, rfl⟩

/-- The name that the text of a function declares. -/
def declaredName? (f : FlatFunction) : Option Text := (readMethod? f.source).map fun read => read.1.name

/-- The truck gets a getter beside the method of that name that it inherits, and the bus a copy of the
method that its parent has under the parent's name beside the method that it has under its own. Their own
methods and properties have different names, and neither prefix of the accessors starts the other. -/
theorem functions_named_alike :
    ¬ ({} : Settings).getterPrefix <+: ({} : Settings).setterPrefix ∧
      ¬ ({} : Settings).setterPrefix <+: ({} : Settings).getterPrefix ∧
      ∀ c ∈ [truck, bus], c.ownNames.Nodup ∧ (c.properties.map Property.name).Nodup ∧
        ∃ text flat, c.generate {} "f".toList garage = .ok text ∧
          c.flatten {} "f".toList garage = .ok flat ∧ text = flat.text ∧
          ¬ (flat.functions.map declaredName?).Nodup := by
  refine ⟨by decide, by decide, ?_⟩
  rw [List.forall_mem_cons, List.forall_mem_singleton]
  constructor
  · exact ⟨by decide, by decide, _, _, rfl, rfl, rfl, by decide +kernel⟩
  · exact ⟨by decide, by decide, _, _, rfl, rfl, rfl, by decide +kernel⟩

end Class

end ClassFlattening
