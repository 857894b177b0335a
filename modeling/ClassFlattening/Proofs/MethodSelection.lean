import ClassFlattening.Proofs.EmittedLines
import Mathlib.Data.List.Basic
import Mathlib.Data.List.Find

/-!
# Which functions a flattened class has

What a class takes from others is decided name by name. A name is served by the nearest class that has
an instance method of it, and there by the first such method; the names are taken in the order in which
a walk over the classes meets them. The flattening collects its copies in one pass that remembers the
names taken so far. Here that pass is shown to give what the names decide, for the line of ancestors and
for the mixins alike, and the copies of a generated class are listed without it.
-/

namespace ClassFlattening

/-- The first instance method of a class with a name. -/
def Class.instanceMethod? (c : Class) (name : Text) : Option Method :=
  c.methods.find? fun m => !m.isStatic && m.name == name

/-- What the first of some classes that has an instance method of a name hands down under it. -/
def nearestOffer? (donors : List Class) (name : Text) : Option Offer :=
  donors.findSome? fun donor => (donor.instanceMethod? name).map (⟨donor.name, ·⟩)

/-- The names of the instance methods of some classes, class by class, as often as they stand there. -/
def instanceNames (donors : List Class) : List Text :=
  donors.flatMap fun donor => (donor.methods.filter fun m => !m.isStatic).map Method.name

/-- The names of constructors and destructors. -/
def lifecycleNames : List Text := ["init".toList, "deinit".toList]

/-- The nearest offer under each of some names. -/
def offersUnder (donors : List Class) (names : List Text) : List Offer :=
  names.eraseDups.filterMap (nearestOffer? donors)

/-- A name is passed over exactly when it is taken: which names are taken matters, and not in which
order. -/
theorem firstOfEachName_congr {taken taken' : List Text} (h : ∀ n, n ∈ taken ↔ n ∈ taken')
    (offers : List Offer) : firstOfEachName taken offers = firstOfEachName taken' offers := by
  induction offers generalizing taken taken' with
  | nil => rfl
  | cons offer rest ih =>
    have hcons (n : Text) : n ∈ offer.method.name :: taken ↔ n ∈ offer.method.name :: taken' := by
      rw [List.mem_cons, List.mem_cons, h]
    rw [firstOfEachName, firstOfEachName, ih h, ih hcons]
    simp only [h]

/-- The names of the offers that are kept are those that are not taken. -/
theorem mem_names_firstOfEachName (taken : List Text) (offers : List Offer) (n : Text) :
    n ∈ Offer.names (firstOfEachName taken offers) ↔ n ∈ Offer.names offers ∧ n ∉ taken := by
  induction offers generalizing taken with
  | nil => simp [firstOfEachName, Offer.names]
  | cons offer rest ih =>
    rw [firstOfEachName]
    simp only [Offer.names] at ih ⊢
    by_cases htaken : offer.method.name ∈ taken
    · rw [if_pos htaken, ih, List.map_cons, List.mem_cons]
      constructor
      · exact fun ⟨hn, hnew⟩ => ⟨Or.inr hn, hnew⟩
      · rintro ⟨rfl | hn, hnew⟩
        · exact absurd htaken hnew
        · exact ⟨hn, hnew⟩
    · rw [if_neg htaken, List.map_cons, List.mem_cons, ih, List.map_cons, List.mem_cons]
      by_cases hn : n = offer.method.name
      · simp [hn, htaken]
      · simp [hn]

/-- Offers that are kept have different names. -/
theorem nodup_names_firstOfEachName (taken : List Text) (offers : List Offer) :
    (Offer.names (firstOfEachName taken offers)).Nodup := by
  induction offers generalizing taken with
  | nil => exact List.nodup_nil
  | cons offer rest ih =>
    rw [firstOfEachName]
    split
    · exact ih taken
    · rw [Offer.names, List.map_cons, ← Offer.names, List.nodup_cons]
      refine ⟨fun hmem => ?_, ih _⟩
      exact ((mem_names_firstOfEachName _ rest _).1 hmem).2 List.mem_cons_self

/-- Behind some offers the names that were kept from them are taken too. -/
theorem firstOfEachName_append (taken : List Text) (xs ys : List Offer) :
    firstOfEachName taken (xs ++ ys) =
      firstOfEachName taken xs ++
        firstOfEachName (taken ++ Offer.names (firstOfEachName taken xs)) ys := by
  induction xs generalizing taken with
  | nil => simp [firstOfEachName, Offer.names]
  | cons offer rest ih =>
    rw [List.cons_append, firstOfEachName, firstOfEachName]
    split
    · exact ih taken
    · rw [ih, List.cons_append]
      congr 2
      apply firstOfEachName_congr
      intro n
      simp only [Offer.names, List.map_cons, List.mem_append, List.mem_cons]
      exact or_left_comm

/-- The offers that are kept are the first ones under the names that are not taken, each name once. -/
theorem firstOfEachName_eq_filterMap (taken : List Text) (offers : List Offer) :
    firstOfEachName taken offers =
      ((Offer.names offers).filter (· ∉ taken)).eraseDups.filterMap fun n =>
        offers.find? fun offer => offer.method.name == n := by
  induction offers generalizing taken with
  | nil => rfl
  | cons offer rest ih =>
    have hskip (n : Text) (hn : offer.method.name ≠ n) :
        ((offer :: rest).find? fun offer => offer.method.name == n) =
          rest.find? fun offer => offer.method.name == n := by
      rw [List.find?_cons_of_neg (by simpa using hn)]
    rw [firstOfEachName, Offer.names, List.map_cons, ← Offer.names]
    by_cases htaken : offer.method.name ∈ taken
    · rw [if_pos htaken, ih, List.filter_cons_of_neg (by simpa using htaken)]
      apply List.filterMap_congr
      intro n hn
      rw [hskip n]
      rintro rfl
      simp [htaken, List.mem_eraseDups] at hn
    · rw [if_neg htaken, ih, List.filter_cons_of_pos (by simpa using htaken), List.eraseDups_cons,
        List.filterMap_cons_some (b := offer) (by simp), List.filter_filter]
      congr 1
      have hnames : (Offer.names rest).filter (· ∉ offer.method.name :: taken) =
          (Offer.names rest).filter fun n => !(n == offer.method.name) && decide (n ∉ taken) := by
        apply List.filter_congr
        intro n _
        by_cases hn : n = offer.method.name
        · simp [hn]
        · simp [hn]
      rw [hnames]
      apply List.filterMap_congr
      intro n hn
      rw [hskip n]
      rintro rfl
      simp at hn

/-- What some classes offer under a name first is what the nearest of them offers. -/
theorem find?_offers (donors : List Class) (name : Text) :
    ((donors.flatMap Class.offers).find? fun offer => offer.method.name == name) =
      nearestOffer? donors name := by
  rw [List.find?_flatMap, nearestOffer?]
  congr 1
  funext donor
  rw [Class.offers, List.find?_map, List.find?_filter, Class.instanceMethod?]
  congr 2
  funext m
  rw [Bool.eq_iff_iff]
  simp

/-- The nearest offer under a name has that name. -/
theorem name_of_nearestOffer? {donors : List Class} {n : Text} {offer : Offer}
    (h : nearestOffer? donors n = some offer) : offer.method.name = n := by
  rw [← find?_offers] at h
  simpa using List.find?_some h

/-- The nearest offer is an instance method of one of the classes. -/
theorem mem_offers_of_nearestOffer? {donors : List Class} {n : Text} {offer : Offer}
    (h : nearestOffer? donors n = some offer) : offer ∈ donors.flatMap Class.offers :=
  List.mem_of_find?_eq_some ((find?_offers donors n).trans h)

/-- The names of the nearest offers under some names are among these names, in their order. -/
theorem names_filterMap_nearestOffer?_sublist (donors : List Class) (names : List Text) :
    (Offer.names (names.filterMap (nearestOffer? donors))).Sublist names := by
  induction names with
  | nil => exact .slnil
  | cons n rest ih =>
    cases hnearest : nearestOffer? donors n with
    | none =>
      rw [List.filterMap_cons_none hnearest]
      exact ih.cons n
    | some offer =>
      rw [List.filterMap_cons_some hnearest, Offer.names, List.map_cons, name_of_nearestOffer? hnearest]
      exact ih.cons_cons n

/-- The names of the instance methods of some classes are those of the classes in front and then those of
the others. -/
theorem instanceNames_append (front back : List Class) :
    instanceNames (front ++ back) = instanceNames front ++ instanceNames back :=
  List.flatMap_append

/-- The names of offers, passing over those that are not wanted. -/
theorem names_filter_offers (wanted : Text → Bool) (donors : List Class) :
    Offer.names ((donors.flatMap Class.offers).filter fun offer => wanted offer.method.name) =
      (instanceNames donors).filter wanted := by
  have hnames : Offer.names (donors.flatMap Class.offers) = instanceNames donors := by
    rw [Offer.names, List.map_flatMap, instanceNames]
    congr 1
    funext donor
    rw [Class.offers, List.map_map]
    rfl
  rw [← hnames, Offer.names, Offer.names, List.filter_map]
  rfl

/-- What is offered has the name of an instance method. -/
theorem name_mem_of_mem_offers {donors : List Class} {offer : Offer}
    (h : offer ∈ donors.flatMap Class.offers) : offer.method.name ∈ instanceNames donors := by
  obtain ⟨donor, hdonor, hoffer⟩ := List.mem_flatMap.1 h
  obtain ⟨m, hm, rfl⟩ := List.mem_map.1 hoffer
  exact List.mem_flatMap.2 ⟨donor, hdonor, List.mem_map_of_mem hm⟩

/-- The nearest offers under some of the names that classes have instance methods of. -/
theorem mem_offersUnder_iff {donors : List Class} {wanted : Text → Bool} {offer : Offer} :
    offer ∈ offersUnder donors ((instanceNames donors).filter wanted) ↔
      ∃ n, wanted n = true ∧ nearestOffer? donors n = some offer := by
  simp only [offersUnder, List.mem_filterMap, List.mem_eraseDups, List.mem_filter]
  constructor
  · rintro ⟨n, ⟨-, hwanted⟩, hnearest⟩
    exact ⟨n, hwanted, hnearest⟩
  · rintro ⟨n, hwanted, hnearest⟩
    have hmem := name_mem_of_mem_offers (mem_offers_of_nearestOffer? hnearest)
    exact ⟨n, ⟨name_of_nearestOffer? hnearest ▸ hmem, hwanted⟩, hnearest⟩

/-- One pass over the offers of some classes gives the nearest offer under each name that is wanted and
not taken. -/
theorem firstOfEachName_offers (wanted : Text → Bool) (taken : List Text) (donors : List Class) :
    firstOfEachName taken
        ((donors.flatMap Class.offers).filter fun offer => wanted offer.method.name) =
      offersUnder donors ((instanceNames donors).filter fun n => decide (n ∉ taken) && wanted n) := by
  rw [firstOfEachName_eq_filterMap, names_filter_offers, List.filter_filter, offersUnder]
  apply List.filterMap_congr
  intro n hn
  have hwanted : wanted n = true := by
    rw [List.mem_eraseDups, List.mem_filter, Bool.and_eq_true] at hn
    exact hn.2.2
  rw [← find?_offers, List.find?_filter]
  congr 1
  funext offer
  by_cases hname : offer.method.name = n
  · simp [hname, hwanted]
  · simp [hname]

/-- Every mixin adds something, if only nothing. -/
theorem map_fst_mixedIn (taken : List Text) (mixins : List Class) :
    (mixedIn taken mixins).map Prod.fst = mixins := by
  induction mixins generalizing taken with
  | nil => rfl
  | cons mixin rest ih => rw [mixedIn, List.map_cons, ih]

/-- The passes of the mixins, one behind the other, are one pass over all they offer. -/
theorem flatMap_mixedIn (taken : List Text) (mixins : List Class) :
    (mixedIn taken mixins).flatMap Prod.snd =
      firstOfEachName taken
        ((mixins.flatMap Class.offers).filter fun offer => offer.method.isOrdinary) := by
  induction mixins generalizing taken with
  | nil => rfl
  | cons mixin rest ih =>
    rw [mixedIn, List.flatMap_cons, ih, List.flatMap_cons, List.filter_append,
      firstOfEachName_append]

/-- A method is handed down under its own name unless it has the name of a constructor or destructor. -/
theorem Method.isOrdinary_eq (m : Method) : m.isOrdinary = decide (m.name ∉ lifecycleNames) := by
  rw [Bool.eq_iff_iff]
  simp [isOrdinary, isConstructor, isDestructor, lifecycleNames]

namespace Class

/-- What a class may inherit under a name is the nearest offer, unless it has that name itself. -/
theorem find?_inheritable (c : Class) (ancestors : List Class) (name : Text) :
    ((c.inheritable ancestors).find? fun offer => offer.method.name == name) =
      if name ∈ c.ownNames then none else nearestOffer? ancestors name := by
  rw [inheritable, List.find?_filter]
  by_cases hown : name ∈ c.ownNames
  · rw [if_pos hown, List.find?_eq_none]
    intro offer _ hoffer
    simp only [decide_eq_true_eq, beq_iff_eq] at hoffer
    obtain ⟨hfree, rfl⟩ := hoffer
    exact hfree hown
  · rw [if_neg hown, ← find?_offers]
    congr 1
    funext offer
    by_cases hname : offer.method.name = name
    · simp [hname, hown]
    · simp [hname]

/-- Of some names the first one counts if it is free, and then the others. -/
theorem filterMap_nearestOffer?_cons (c : Class) (ancestors : List Class) (name : Text)
    (names : List Text) :
    ((name :: names).filter (· ∉ c.ownNames)).filterMap (nearestOffer? ancestors) =
      (if name ∈ c.ownNames then none else nearestOffer? ancestors name).toList ++
        (names.filter (· ∉ c.ownNames)).filterMap (nearestOffer? ancestors) := by
  by_cases hown : name ∈ c.ownNames
  · rw [List.filter_cons_of_neg (by simpa using hown), if_pos hown, Option.toList_none,
      List.nil_append]
  · rw [List.filter_cons_of_pos (by simpa using hown), if_neg hown]
    cases hnearest : nearestOffer? ancestors name with
    | none => rw [List.filterMap_cons_none hnearest, Option.toList_none, List.nil_append]
    | some offer => rw [List.filterMap_cons_some hnearest, Option.toList_some,
        List.singleton_append]

/-- What a class inherits under the names of constructors and destructors comes from the nearest
ancestors that have one. -/
theorem lifecycle_eq (c : Class) (ancestors : List Class) :
    c.lifecycle ancestors =
      (lifecycleNames.filter (· ∉ c.ownNames)).filterMap (nearestOffer? ancestors) := by
  unfold lifecycleNames
  rw [filterMap_nearestOffer?_cons, filterMap_nearestOffer?_cons, ← find?_inheritable,
    ← find?_inheritable, List.filter_nil, List.filterMap_nil, List.append_nil]
  rfl

/-- The ordinary offers that a class may inherit are those under free names. -/
theorem filter_isOrdinary_inheritable (c : Class) (ancestors : List Class) :
    (c.inheritable ancestors).filter (fun offer => offer.method.isOrdinary) =
      (ancestors.flatMap offers).filter fun offer =>
        decide (offer.method.name ∉ lifecycleNames ∧ offer.method.name ∉ c.ownNames) := by
  rw [inheritable, List.filter_filter]
  simp only [Method.isOrdinary_eq, Bool.decide_and]

/-- What a class inherits under other names comes from the nearest ancestors too. -/
theorem inherited_eq (c : Class) (ancestors : List Class) :
    c.inherited ancestors =
      offersUnder ancestors
        ((instanceNames ancestors).filter fun n => n ∉ lifecycleNames ∧ n ∉ c.ownNames) := by
  rw [inherited, filter_isOrdinary_inheritable,
    firstOfEachName_offers fun n => n ∉ lifecycleNames ∧ n ∉ c.ownNames]
  simp

/-- A class inherits under every free name of its ancestors. -/
theorem mem_names_inherited (c : Class) (ancestors : List Class) (n : Text) :
    n ∈ Offer.names (c.inherited ancestors) ↔
      n ∈ instanceNames ancestors ∧ n ∉ lifecycleNames ∧ n ∉ c.ownNames := by
  rw [inherited, mem_names_firstOfEachName, filter_isOrdinary_inheritable,
    names_filter_offers fun n => n ∉ lifecycleNames ∧ n ∉ c.ownNames]
  simp

/-- What the mixins add comes from the first mixin that has it, under the names that neither the class
nor its ancestors serve. -/
theorem mixedIn_eq (c : Class) (ancestors mixins : List Class) :
    (mixedIn (c.ownNames ++ Offer.names (c.inherited ancestors)) mixins).flatMap Prod.snd =
      offersUnder mixins
        ((instanceNames mixins).filter fun n =>
          n ∉ lifecycleNames ∧ n ∉ c.ownNames ∧ n ∉ instanceNames ancestors) := by
  rw [flatMap_mixedIn]
  simp only [Method.isOrdinary_eq]
  rw [firstOfEachName_offers fun n => n ∉ lifecycleNames]
  congr 1
  apply List.filter_congr
  intro n _
  rw [Bool.eq_iff_iff]
  simp only [List.mem_append, mem_names_inherited, Bool.and_eq_true, decide_eq_true_eq]
  tauto

/-- The texts of the methods of a flattened class, name by name. First come its own methods as they stand.
Then come the constructor and the destructor, each unless the class has a method of that name, retargeted to
the class; then the other methods of the ancestors under names that the class does not use itself, and then
what the mixins add under names that are used by neither the class nor its ancestors, with the name of the
class in the place of the name of the class that each of them is from. Only instance methods are handed on,
and of each name the first one of the nearest class. -/
def methodTexts (c : Class) (ancestors mixins : List Class) : List Text :=
  let lifecycle := (lifecycleNames.filter (· ∉ c.ownNames)).filterMap (nearestOffer? ancestors)
  let inherited := offersUnder ancestors
    ((instanceNames ancestors).filter fun n => n ∉ lifecycleNames ∧ n ∉ c.ownNames)
  let mixedIn := offersUnder mixins
    ((instanceNames mixins).filter fun n =>
      n ∉ lifecycleNames ∧ n ∉ c.ownNames ∧ n ∉ instanceNames ancestors)
  c.methods.map Method.source ++
    lifecycle.map (fun offer => retarget offer.method.source offer.donor c.name) ++
    inherited.map (fun offer => rename offer.method.source offer.donor c.name) ++
    mixedIn.map (fun offer => rename offer.method.source offer.donor c.name)

/-- The functions of a flattened class have the texts that the names decide, and those of its accessors. -/
theorem map_source_functions_flatStruct (c : Class) (settings : Settings) (ancestors mixins : List Class) :
    (c.flatStruct settings ancestors mixins).functions.map FlatFunction.source =
      c.methodTexts ancestors mixins ++
        (c.properties.flatMap (accessors settings c)).map FlatFunction.source := by
  rw [methodTexts, flatStruct]
  simp only [← lifecycle_eq, ← inherited_eq, ← mixedIn_eq, List.map_append, List.map_map, List.map_flatMap]
  rfl

/-- A generated class is written line by line, and its functions are exactly the methods that the names
decide, in that order, and behind them its accessors. -/
theorem functions_of_generate {c : Class} {settings : Settings} {file : Text} {registry : Registry}
    {text : Text} (h : c.generate settings file registry = .ok text) :
    ∃ ancestors, registry.ancestors c = .ok ancestors ∧
      text = inLines (structLines c.visibility c.name
        (ancestors.reverse.flatMap layout ++ (c.resolvedMixins registry file).flatMap layout ++ c.layout)
        c.constants
        (c.methodTexts ancestors (c.resolvedMixins registry file) ++
          (c.properties.flatMap (accessors settings c)).map FlatFunction.source)) := by
  obtain ⟨ancestors, hancestors, -, htext⟩ := text_of_generate h
  rw [map_source_functions_flatStruct] at htext
  exact ⟨ancestors, hancestors, htext⟩

/-- A class named by its file, with a method named by each of some names; static ones are marked. -/
def sample (name : String) (parent : Option String) (mixins : List String)
    (methods : List (String × Bool)) : Class where
  name := name.toList
  parent := parent.map String.toList
  mixins := mixins.map String.toList
  methods := methods.map fun (m, isStatic) => ⟨m.toList, m.toList, [], [], isStatic⟩
  file := "f".toList

/-- The youngest of three generations, with a mixin. -/
def sampleChild : Class := sample "Child" "Parent" ["Mixin"] [("run", false)]

/-- Three generations and a mixin in one file. -/
def sampleFamily : Registry where
  files := [{
    path := "f".toList
    classes := [
      sampleChild,
      sample "Parent" "Root" [] [("make", true), ("step", false), ("step", false), ("deinit", false)],
      sample "Root" none [] [("init", false), ("run", false), ("make", false), ("step", false)],
      sample "Mixin" none [] [("step", false), ("draw", false), ("init", false)]] }]

/-- A child takes a constructor from the root, a destructor and one step from its parent, what the
parent's static method does not hide, and what only the mixin has. -/
theorem functions_of_generate_sampleChild :
    ∃ text, sampleChild.generate {} "f".toList sampleFamily = .ok text ∧
      ∃ ancestors, sampleFamily.ancestors sampleChild = .ok ancestors ∧
        text = inLines (structLines [] "Child".toList [] []
          (sampleChild.methodTexts ancestors (sampleChild.resolvedMixins sampleFamily "f".toList))) ∧
        text = inLines (["const Child = struct \x7b", "", "    run", "", "    init", "", "    deinit", "",
          "    step", "", "    make", "", "    draw", "\x7d;"].map String.toList) := by
  have hgenerate : sampleChild.generate {} "f".toList sampleFamily = .ok _ := rfl
  obtain ⟨ancestors, hancestors, htext⟩ := functions_of_generate hgenerate
  rw [show sampleChild.properties = [] from rfl, List.flatMap_nil, List.map_nil, List.append_nil] at htext
  obtain rfl : ancestors = _ := Except.ok.inj (hancestors.symm.trans rfl)
  exact ⟨_, hgenerate, _, hancestors, htext, rfl⟩

end Class

end ClassFlattening
