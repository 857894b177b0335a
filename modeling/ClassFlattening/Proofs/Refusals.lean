import ClassFlattening.Proofs.LineageAgreement
import ClassFlattening.Proofs.MethodSelection

/-!
# What a class is refused for

A class can be refused for its own name, for its line of ancestors and for what it takes from others. What
it takes is decided name by name, so what is looked at can be listed without the pass that collects the
copies: `Class.checks` does so, in the order in which a flattening looks, and `generate_refused_iff` says
that the first of these checks that fails is the fault and that there is no fault otherwise.
-/

namespace ClassFlattening

namespace Class

/-- What a class takes from others: of its line the nearest method under each name that it does not use
itself, and of its mixins the first one under each ordinary name that neither the class nor its line
uses. Methods are instance methods here. -/
inductive Takes (c : Class) (line mixins : List Class) : Offer → Prop
  | inherited {n : Text} {offer : Offer} (free : n ∉ c.ownNames)
      (nearest : nearestOffer? line n = some offer) : Takes c line mixins offer
  | mixedIn {n : Text} {offer : Offer} (free : n ∉ c.ownNames) (ordinary : n ∉ lifecycleNames)
      (absent : n ∉ instanceNames line) (first : nearestOffer? mixins n = some offer) :
      Takes c line mixins offer

variable {c : Class} {line mixins : List Class}

/-- What is taken is an instance method whose name the class does not use. -/
theorem Takes.isStatic_and_free {offer : Offer} (h : c.Takes line mixins offer) :
    offer.method.isStatic = false ∧ offer.method.name ∉ c.ownNames := by
  have hstatic {donors : List Class} {n : Text} (hnearest : nearestOffer? donors n = some offer) :
      offer.method.isStatic = false := by
    obtain ⟨donor, -, hoffer⟩ := List.mem_flatMap.1 (mem_offers_of_nearestOffer? hnearest)
    obtain ⟨m, hm, rfl⟩ := List.mem_map.1 hoffer
    simpa using (List.mem_filter.1 hm).2
  cases h with
  | inherited free nearest => exact ⟨hstatic nearest, name_of_nearestOffer? nearest ▸ free⟩
  | mixedIn free _ _ first => exact ⟨hstatic first, name_of_nearestOffer? first ▸ free⟩

/-- The constructor and the destructor that are inherited are the nearest ones, where they are free. -/
theorem mem_lifecycle_iff {offer : Offer} :
    offer ∈ c.lifecycle line ↔
      ∃ n ∈ lifecycleNames, n ∉ c.ownNames ∧ nearestOffer? line n = some offer := by
  rw [lifecycle_eq, List.mem_filterMap]
  simp only [List.mem_filter, decide_eq_true_eq, and_assoc]

/-- The other methods that are inherited are the nearest ones too. -/
theorem mem_inherited_iff {offer : Offer} :
    offer ∈ c.inherited line ↔
      ∃ n, n ∉ lifecycleNames ∧ n ∉ c.ownNames ∧ nearestOffer? line n = some offer := by
  rw [inherited_eq, mem_offersUnder_iff]
  simp only [decide_eq_true_eq, and_assoc]

/-- What mixins add is what is taken from them. -/
theorem mem_mixedIn_iff {offer : Offer} :
    offer ∈ (mixedIn (c.ownNames ++ Offer.names (c.inherited line)) mixins).flatMap Prod.snd ↔
      ∃ n, n ∉ lifecycleNames ∧ n ∉ c.ownNames ∧ n ∉ instanceNames line ∧
        nearestOffer? mixins n = some offer := by
  rw [mixedIn_eq, mem_offersUnder_iff]
  simp only [decide_eq_true_eq, and_assoc]

end Class

/-- A name is demanded to be that of a type. -/
theorem Demand.check_typeName_eq_ok_iff (name : Text) :
    (Demand.typeName name).check = .ok () ↔ isTypeName name = true := by
  rw [check]
  split <;> simp [*]

/-- A signature is demanded to keep to the limit. -/
theorem Demand.check_signature_eq_ok_iff (m : Method) :
    (Demand.signature m).check = .ok () ↔ m.signature.size ≤ signatureLimit := by
  rw [check]
  split <;> simp [*]

/-- Only a signature that is too long is refused as one. -/
theorem Demand.check_eq_signatureTooLong_iff (demand : Demand) (n : Text) (size : Nat) :
    demand.check = .error (.signatureTooLong n size) ↔
      ∃ m, demand = .signature m ∧ m.name = n ∧ m.signature.size = size ∧ signatureLimit < size := by
  cases demand with
  | typeName name =>
    rw [check]
    split <;> simp
  | signature m =>
    rw [check]
    split
    · next hle =>
      simp only [reduceCtorEq, signature.injEq, exists_eq_left', false_iff, not_and, Nat.not_lt]
      rintro - rfl
      exact hle
    · next hlt =>
      simp only [Except.error.injEq, Fault.signatureTooLong.injEq, signature.injEq, exists_eq_left']
      constructor
      · rintro ⟨rfl, rfl⟩
        exact ⟨rfl, rfl, Nat.lt_of_not_le hlt⟩
      · rintro ⟨hname, hsize, -⟩
        exact ⟨hname, hsize⟩

namespace Class

variable {c : Class} {line mixins : List Class}

/-- The demands on what mixins add are met exactly when the mixins have names of types and the signatures
of all they add are short. -/
theorem mixinDemands_met_iff (additions : List (Class × List Offer)) :
    (∀ demand ∈ additions.flatMap fun (mixin, added) =>
        Demand.typeName mixin.name :: added.map fun offer => .signature offer.method,
        demand.check = .ok ()) ↔
      (∀ mixin ∈ additions.map Prod.fst, isTypeName mixin.name = true) ∧
        ∀ offer ∈ additions.flatMap Prod.snd, offer.method.signature.size ≤ signatureLimit := by
  simp only [List.forall_mem_flatMap, List.forall_mem_cons, List.forall_mem_map,
    Demand.check_typeName_eq_ok_iff, Demand.check_signature_eq_ok_iff]
  exact forall₂_and

/-- The demands on the copies of a class are met exactly when all that it takes has a short signature and
the donors whose names are replaced have names of types: the ancestors that it takes ordinary methods
from, and all its mixins. -/
theorem demands_met_iff :
    (∀ demand ∈ c.demands line mixins, demand.check = .ok ()) ↔
      (∀ offer, c.Takes line mixins offer → offer.method.signature.size ≤ signatureLimit) ∧
        (∀ n, n ∉ lifecycleNames → n ∉ c.ownNames → ∀ offer, nearestOffer? line n = some offer →
          isTypeName offer.donor = true) ∧
        ∀ mixin ∈ mixins, isTypeName mixin.name = true := by
  rw [demands, List.forall_mem_append, List.forall_mem_append, mixinDemands_met_iff, map_fst_mixedIn]
  simp only [List.forall_mem_flatMap, List.forall_mem_cons, List.forall_mem_map,
    Demand.check_typeName_eq_ok_iff, Demand.check_signature_eq_ok_iff, List.not_mem_nil]
  constructor
  · rintro ⟨⟨hlife, hinherited⟩, hnames, hmixed⟩
    refine ⟨?_, ?_, hnames⟩
    · intro offer htakes
      cases htakes with
      | @inherited n _ free nearest =>
        by_cases hn : n ∈ lifecycleNames
        · exact hlife offer (mem_lifecycle_iff.2 ⟨n, hn, free, nearest⟩)
        · exact (hinherited offer (mem_inherited_iff.2 ⟨n, hn, free, nearest⟩)).1
      | @mixedIn n _ free ordinary absent first =>
        exact List.forall_mem_flatMap.2 hmixed offer
          (mem_mixedIn_iff.2 ⟨n, ordinary, free, absent, first⟩)
    · intro n hordinary hfree offer hnearest
      exact (hinherited offer (mem_inherited_iff.2 ⟨n, hordinary, hfree, hnearest⟩)).2.1
  · rintro ⟨htaken, hdonors, hnames⟩
    refine ⟨⟨?_, ?_⟩, hnames, ?_⟩
    · intro offer hoffer
      obtain ⟨n, -, hfree, hnearest⟩ := mem_lifecycle_iff.1 hoffer
      exact htaken offer (.inherited hfree hnearest)
    · intro offer hoffer
      obtain ⟨n, hordinary, hfree, hnearest⟩ := mem_inherited_iff.1 hoffer
      exact ⟨htaken offer (.inherited hfree hnearest), hdonors n hordinary hfree offer hnearest, by simp⟩
    · rw [← List.forall_mem_flatMap]
      intro offer hoffer
      obtain ⟨n, hordinary, hfree, habsent, hfirst⟩ := mem_mixedIn_iff.1 hoffer
      exact htaken offer (.mixedIn hfree hordinary habsent hfirst)

/-- The signatures that are looked at are those of what a class takes. -/
theorem exists_takes_of_mem_demands {m : Method} (h : .signature m ∈ c.demands line mixins) :
    ∃ offer, c.Takes line mixins offer ∧ offer.method = m := by
  simp only [demands, List.mem_append, List.mem_map, List.mem_flatMap, List.mem_cons, List.not_mem_nil,
    reduceCtorEq, Demand.signature.injEq, or_false, false_or] at h
  rcases h with (⟨offer, hoffer, rfl⟩ | ⟨offer, hoffer, rfl⟩) | ⟨⟨mixin, added⟩, hadded, offer, hoffer, rfl⟩
  · obtain ⟨n, -, hfree, hnearest⟩ := mem_lifecycle_iff.1 hoffer
    exact ⟨offer, .inherited hfree hnearest, rfl⟩
  · obtain ⟨n, -, hfree, hnearest⟩ := mem_inherited_iff.1 hoffer
    exact ⟨offer, .inherited hfree hnearest, rfl⟩
  · have hmixed := List.mem_flatMap.2 ⟨_, hadded, hoffer⟩
    obtain ⟨n, hordinary, hfree, habsent, hfirst⟩ := mem_mixedIn_iff.1 hmixed
    exact ⟨offer, .mixedIn hfree hordinary habsent hfirst, rfl⟩

/-- What is looked at for some mixins behind earlier ones, mixin by mixin: its name and then the signature
of what is taken from it, under the ordinary names that neither the class nor its line nor an earlier mixin
uses. -/
def mixinChecks (c : Class) (line : List Class) : List Class → List Class → List Demand
  | _, [] => []
  | earlier, mixin :: rest =>
    let added := offersUnder [mixin]
      ((instanceNames [mixin]).filter fun n =>
        n ∉ lifecycleNames ∧ n ∉ c.ownNames ∧ n ∉ instanceNames (line ++ earlier))
    .typeName mixin.name :: added.map (fun offer => .signature offer.method) ++
      mixinChecks c line (earlier ++ [mixin]) rest

/-- What is looked at for a class behind its own name and its line, name by name. First come the signatures
of the constructor and the destructor, then the signature and the donor of each other method that is
inherited, nearest ancestor first, and then the mixins. -/
def checks (c : Class) (line mixins : List Class) : List Demand :=
  let lifecycle := (lifecycleNames.filter (· ∉ c.ownNames)).filterMap (nearestOffer? line)
  let inherited := offersUnder line
    ((instanceNames line).filter fun n => n ∉ lifecycleNames ∧ n ∉ c.ownNames)
  lifecycle.map (fun offer => .signature offer.method) ++
    inherited.flatMap (fun offer => [.signature offer.method, .typeName offer.donor]) ++
    c.mixinChecks line [] mixins

/-- What one mixin adds is the first offer under each ordinary name that is not taken. -/
theorem firstOfEachName_mixin (taken : List Text) (mixin : Class) :
    firstOfEachName taken (mixin.offers.filter fun offer => offer.method.isOrdinary) =
      offersUnder [mixin] ((instanceNames [mixin]).filter fun n => n ∉ taken ∧ n ∉ lifecycleNames) := by
  have hoffers := firstOfEachName_offers (fun n => n ∉ lifecycleNames) taken [mixin]
  rw [List.flatMap_singleton] at hoffers
  simp only [Method.isOrdinary_eq, Bool.decide_and]
  exact hoffers

/-- A mixin takes the ordinary names of its instance methods. -/
theorem mem_names_firstOfEachName_mixin (taken : List Text) (mixin : Class) {n : Text}
    (hn : n ∉ lifecycleNames) :
    n ∈ taken ++ Offer.names (firstOfEachName taken
        (mixin.offers.filter fun offer => offer.method.isOrdinary)) ↔
      n ∈ taken ∨ n ∈ instanceNames [mixin] := by
  have hnames := names_filter_offers (fun n => n ∉ lifecycleNames) [mixin]
  rw [List.flatMap_singleton] at hnames
  simp only [Method.isOrdinary_eq]
  rw [List.mem_append, mem_names_firstOfEachName, hnames, List.mem_filter]
  by_cases htaken : n ∈ taken
  · simp [htaken]
  · simp [htaken, hn]

/-- The demands on what mixins add are what is looked at for them, as long as the ordinary names that are
taken are those of the class, of its line and of the earlier mixins. -/
theorem mixinDemands_eq_mixinChecks (taken : List Text) (earlier : List Class)
    (htaken : ∀ n, n ∉ lifecycleNames →
      (n ∈ taken ↔ n ∈ c.ownNames ∨ n ∈ instanceNames (line ++ earlier))) :
    ((mixedIn taken mixins).flatMap fun (mixin, added) =>
        Demand.typeName mixin.name :: added.map fun offer => .signature offer.method) =
      c.mixinChecks line earlier mixins := by
  induction mixins generalizing taken earlier with
  | nil => rfl
  | cons mixin rest ih =>
    have hadded : firstOfEachName taken (mixin.offers.filter fun offer => offer.method.isOrdinary) =
        offersUnder [mixin] ((instanceNames [mixin]).filter fun n =>
          n ∉ lifecycleNames ∧ n ∉ c.ownNames ∧ n ∉ instanceNames (line ++ earlier)) := by
      rw [firstOfEachName_mixin]
      congr 1
      refine List.filter_congr fun n _ => decide_eq_decide.2 ?_
      by_cases hn : n ∈ lifecycleNames
      · simp [hn]
      · simp [hn, htaken n hn]
    have hnext (n : Text) (hn : n ∉ lifecycleNames) :
        n ∈ taken ++ Offer.names (firstOfEachName taken
            (mixin.offers.filter fun offer => offer.method.isOrdinary)) ↔
          n ∈ c.ownNames ∨ n ∈ instanceNames (line ++ (earlier ++ [mixin])) := by
      rw [mem_names_firstOfEachName_mixin taken mixin hn, htaken n hn, ← List.append_assoc,
        instanceNames_append (line ++ earlier), List.mem_append, or_assoc]
    rw [mixedIn, List.flatMap_cons, ih _ _ hnext, mixinChecks]
    simp only [hadded]

/-- The demands on a class are what is looked at, in order. -/
theorem demands_eq_checks : c.demands line mixins = c.checks line mixins := by
  have htaken (n : Text) (hn : n ∉ lifecycleNames) :
      n ∈ c.ownNames ++ Offer.names (c.inherited line) ↔
        n ∈ c.ownNames ∨ n ∈ instanceNames (line ++ []) := by
    rw [List.mem_append, mem_names_inherited, List.append_nil]
    tauto
  rw [demands, mixinDemands_eq_mixinChecks _ [] htaken, lifecycle_eq, inherited_eq]
  rfl

/-- What is looked at depends on a class through the names of its own methods alone. -/
theorem checks_congr {d : Class} (hown : ∀ n, n ∈ d.ownNames ↔ n ∈ c.ownNames) :
    d.checks line mixins = c.checks line mixins := by
  have hmixins (earlier : List Class) :
      d.mixinChecks line earlier mixins = c.mixinChecks line earlier mixins := by
    induction mixins generalizing earlier with
    | nil => rfl
    | cons mixin rest ih =>
      rw [mixinChecks, mixinChecks, ih]
      simp only [hown]
  simp only [checks, hmixins, hown]

/-- A class is refused for the first thing that is not in order: its name, its line of ancestors, and then
the checks one after the other. -/
theorem generate_eq_error_iff (c : Class) (settings : Settings) (file : Text) (registry : Registry)
    (fault : Fault) :
    c.generate settings file registry = .error fault ↔
      (isTypeName c.name = false ∧ fault = .invalidTypeName c.name) ∨
        (isTypeName c.name = true ∧ ∃ f, registry.ancestors c = .error f ∧ fault = .lineage f) ∨
        (isTypeName c.name = true ∧ ∃ line, registry.ancestors c = .ok line ∧
          (c.checks line (c.resolvedMixins registry file)).forM Demand.check = .error fault) := by
  rcases c.flatten_cases settings file registry with ⟨hname, hflat⟩ | ⟨hname, f, hline, hflat⟩ |
    ⟨hname, line, hline, hflat⟩
  · simp [generate, hflat, hname, Except.map, eq_comm]
  · simp [generate, hflat, hname, hline, Except.map, eq_comm]
  · rw [generate, hflat, demands_eq_checks]
    simp only [hname, Bool.true_eq_false, false_and, hline, reduceCtorEq, Except.ok.injEq,
      exists_eq_left', true_and, false_or]
    generalize (c.checks line (c.resolvedMixins registry file)).forM Demand.check = result
    cases result with
    | ok _ => simp [Except.map]
    | error other => simp [Except.map]

/-- When a class is refused, and for what. It is generated exactly when its name is that of a type, its line
can be collected, all that it takes has a signature within the limit, and the ancestors that it takes
ordinary methods from and all its mixins have names of types. Otherwise the fault is that of the first
thing that is not in order: its name, its line, the checks one after the other. Nothing else makes a
difference: neither what is written in its own methods, nor references that lead nowhere. And a signature
that is too long is that of an instance method which is taken, under a name that the class does not use. -/
theorem generate_refused_iff (c : Class) (settings : Settings) (file : Text) (registry : Registry) :
    ((∃ text, c.generate settings file registry = .ok text) ↔
      isTypeName c.name = true ∧ ∃ line, registry.ancestors c = .ok line ∧
        (∀ offer, c.Takes line (c.resolvedMixins registry file) offer →
          offer.method.signature.size ≤ signatureLimit) ∧
        (∀ n, n ∉ lifecycleNames → n ∉ c.ownNames → ∀ offer, nearestOffer? line n = some offer →
          isTypeName offer.donor = true) ∧
        ∀ mixin ∈ c.resolvedMixins registry file, isTypeName mixin.name = true) ∧
    (∀ fault, c.generate settings file registry = .error fault ↔
      (isTypeName c.name = false ∧ fault = .invalidTypeName c.name) ∨
        (isTypeName c.name = true ∧ ∃ f, registry.ancestors c = .error f ∧ fault = .lineage f) ∨
        (isTypeName c.name = true ∧ ∃ line, registry.ancestors c = .ok line ∧
          ∃ front check rest, c.checks line (c.resolvedMixins registry file) = front ++ check :: rest ∧
            (∀ earlier ∈ front, earlier.check = .ok ()) ∧ check.check = .error fault)) ∧
    (∀ settings' d, d.key = c.key → registry.parentOf? d = registry.parentOf? c →
      d.resolvedMixins registry file = c.resolvedMixins registry file →
      (∀ n, n ∈ d.ownNames ↔ n ∈ c.ownNames) → ∀ fault,
        (d.generate settings' file registry = .error fault ↔
          c.generate settings file registry = .error fault)) ∧
    ∀ n size, c.generate settings file registry = .error (.signatureTooLong n size) →
      ∃ line offer, registry.ancestors c = .ok line ∧
        c.Takes line (c.resolvedMixins registry file) offer ∧ offer.method.isStatic = false ∧
        offer.method.name = n ∧ n ∉ c.ownNames ∧ offer.method.signature.size = size ∧
        signatureLimit < size := by
  refine ⟨?_, ?_, ?_, ?_⟩
  · simp only [generate_eq_ok_iff, flatten_eq_ok_iff, demands_met_iff]
    constructor
    · rintro ⟨_, _, ⟨hname, line, hline, hmet, -⟩, -⟩
      exact ⟨hname, line, hline, hmet⟩
    · rintro ⟨hname, line, hline, hmet⟩
      exact ⟨_, _, ⟨hname, line, hline, hmet, rfl⟩, rfl⟩
  · intro fault
    simp only [generate_eq_error_iff, forM_eq_error_iff]
  · intro settings' d hkey hparent hmixins hown fault
    have hname : d.name = c.name := congrArg Prod.snd hkey
    simp only [generate_eq_error_iff, hname, Registry.ancestors_congr hkey hparent, hmixins,
      checks_congr hown]
  · intro n size h
    rcases (c.generate_eq_error_iff settings file registry _).1 h with ⟨-, hfault⟩ | ⟨-, _, -, hfault⟩ |
      ⟨-, line, hline, hchecks⟩
    · cases hfault
    · cases hfault
    obtain ⟨front, check, rest, hsplit, -, hcheck⟩ := (forM_eq_error_iff _ _ _).1 hchecks
    obtain ⟨m, rfl, hname, hsize, hlimit⟩ := (check.check_eq_signatureTooLong_iff n size).1 hcheck
    have hmem : .signature m ∈ c.demands line (c.resolvedMixins registry file) := by
      rw [demands_eq_checks, hsplit]
      exact List.mem_append_right _ List.mem_cons_self
    obtain ⟨offer, htakes, rfl⟩ := exists_takes_of_mem_demands hmem
    obtain ⟨hstatic, hfree⟩ := htakes.isStatic_and_free
    exact ⟨line, offer, hline, htakes, hstatic, hname, hname ▸ hfree, hsize, hlimit⟩

/-- A method whose signature is one byte too long. -/
def longMethod (name : String) : Method := ⟨name.toList, [], List.replicate 1025 'x', [], false⟩

/-- A class with such a method, whose parent has one too. One of its mixins is declared nowhere, and the
name of the other is not that of a type. -/
def heir : Class :=
  { sample "Heir" (some "Donor") ["Missing", "Odd-One"] [] with methods := [longMethod "run"] }

/-- The parent of the heir, whose constructor has a short signature. -/
def donor : Class :=
  { sample "Donor" none [] [] with
    methods := [longMethod "run", longMethod "step", ⟨"init".toList, [], [], [], false⟩] }

/-- The heir, its parent and its mixin in one file. -/
def estate : Registry where
  files := [{ path := "f".toList, classes := [heir, donor, sample "Odd-One" none [] [("draw", false)]] }]

/-- The heir is refused for the first method that it would inherit under a name of its own: not for its own
method, which hides the one of its parent, and not for its mixins, which come later. -/
theorem generate_refused_heir :
    heir.generate {} "f".toList estate = .error (.signatureTooLong "step".toList 1025) ∧
      ∃ line offer, estate.ancestors heir = .ok line ∧
        heir.Takes line (heir.resolvedMixins estate "f".toList) offer ∧
        offer.method.name = "step".toList ∧ "step".toList ∉ heir.ownNames := by
  have hrefused := generate_refused_iff heir {} "f".toList estate
  have hcheck : (Demand.signature (longMethod "step")).check =
      .error (.signatureTooLong "step".toList 1025) := by
    have hsize : (longMethod "step").signature.size = 1025 := by decide +kernel
    rw [Demand.check, hsize]
    rfl
  have hinit : (Demand.signature ⟨"init".toList, [], [], [], false⟩).check = .ok () := rfl
  have hfault : heir.generate {} "f".toList estate =
      .error (.signatureTooLong "step".toList 1025) := by
    refine (hrefused.2.1 _).2 (Or.inr (Or.inr ⟨rfl, [donor], rfl, ?_⟩))
    exact ⟨[.signature ⟨"init".toList, [], [], [], false⟩], _, _, rfl, by simpa using hinit, hcheck⟩
  obtain ⟨line, offer, hline, htakes, -, hname, hfree, -⟩ := hrefused.2.2.2 _ _ hfault
  exact ⟨hfault, line, offer, hline, htakes, hname, hfree⟩

end Class

end ClassFlattening
