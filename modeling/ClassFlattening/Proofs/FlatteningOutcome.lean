import ClassFlattening.Flattening
import ClassFlattening.Proofs.Checks

/-!
# How a flattening ends

A class is refused for its own name, then for its line of ancestors, then for the first demand of its
copies that is not met; otherwise the outcome is the flattened struct. `flatten_cases` says this once,
so that nothing else has to open the definition. Faults of the line come from the line alone, since a
demand only speaks of names and signatures; whatever a class is refused with is about a class.
-/

namespace ClassFlattening

/-- The three ways in which a flattening can go: refused for the name, refused for the line, or
decided by the demands. -/
theorem Class.flatten_cases (c : Class) (settings : Settings) (file : Text) (registry : Registry) :
    (isTypeName c.name = false ∧
        c.flatten settings file registry = .error (.invalidTypeName c.name)) ∨
      (isTypeName c.name = true ∧ ∃ fault, registry.ancestors c = .error fault ∧
        c.flatten settings file registry = .error (.lineage fault)) ∨
      (isTypeName c.name = true ∧ ∃ line, registry.ancestors c = .ok line ∧
        c.flatten settings file registry =
          ((c.demands line (c.resolvedMixins registry file)).forM Demand.check).map
            fun _ => c.flatStruct settings line (c.resolvedMixins registry file)) := by
  cases hname : isTypeName c.name with
  | false =>
    left
    have hcheck : (Demand.typeName c.name).check = .error (.invalidTypeName c.name) := by
      simp [Demand.check, hname]
    unfold flatten
    rw [hcheck]
    exact ⟨rfl, rfl⟩
  | true =>
    right
    have hcheck : (Demand.typeName c.name).check = .ok () := by simp [Demand.check, hname]
    unfold flatten
    rw [hcheck]
    cases hline : registry.ancestors c with
    | error fault => exact Or.inl ⟨rfl, fault, rfl, rfl⟩
    | ok line =>
      refine Or.inr ⟨rfl, line, rfl, ?_⟩
      change ((c.demands line (c.resolvedMixins registry file)).forM Demand.check >>= fun _ =>
        .ok (c.flatStruct settings line (c.resolvedMixins registry file))) = _
      cases (c.demands line (c.resolvedMixins registry file)).forM Demand.check <;> rfl

/-- A class is flattened exactly when its name, its line and all demands pass. -/
theorem Class.flatten_eq_ok_iff (c : Class) (settings : Settings) (file : Text)
    (registry : Registry) (flat : FlatStruct) :
    c.flatten settings file registry = .ok flat ↔
      isTypeName c.name = true ∧ ∃ line, registry.ancestors c = .ok line ∧
        (∀ demand ∈ c.demands line (c.resolvedMixins registry file), demand.check = .ok ()) ∧
        flat = c.flatStruct settings line (c.resolvedMixins registry file) := by
  rcases c.flatten_cases settings file registry with ⟨hname, hflat⟩ | ⟨_, fault, hline, hflat⟩ |
    ⟨hname, line, hline, hflat⟩
  · simp [hflat, hname]
  · simp [hflat, hline]
  · rw [hflat]
    simp only [hname, hline, true_and, Except.ok.injEq, exists_eq_left']
    rw [← forM_eq_ok_iff, map_eq_ok_iff]
    constructor
    · rintro ⟨_, hdemands, hout⟩
      exact ⟨hdemands, hout⟩
    · rintro ⟨hdemands, hout⟩
      exact ⟨(), hdemands, hout⟩

/-- The text of a class is that of its flattened struct. -/
theorem Class.generate_eq_ok_iff (c : Class) (settings : Settings) (file : Text)
    (registry : Registry) (text : Text) :
    c.generate settings file registry = .ok text ↔
      ∃ flat, c.flatten settings file registry = .ok flat ∧ text = flat.text := by
  rw [generate, map_eq_ok_iff]

/-- A demand that is not met is no fault of a line. -/
theorem Demand.check_ne_lineage (demand : Demand) (fault : LineageFault) :
    demand.check ≠ .error (.lineage fault) := by
  cases demand with
  | typeName name => rw [check]; split <;> simp
  | signature method => rw [check]; split <;> simp

/-- A flattening that is refused for a line is refused for the line of its class. -/
theorem Class.ancestors_of_generate_lineage {c : Class} {settings : Settings} {file : Text}
    {registry : Registry} {fault : LineageFault}
    (h : c.generate settings file registry = .error (.lineage fault)) :
    registry.ancestors c = .error fault := by
  rcases c.flatten_cases settings file registry with ⟨_, hflat⟩ | ⟨_, other, hline, hflat⟩ |
    ⟨_, line, _, hflat⟩
  · simp [generate, hflat, Except.map] at h
  · have hfault : other = fault := by simpa [generate, hflat, Except.map] using h
    exact hfault ▸ hline
  · cases hdemands : (c.demands line (c.resolvedMixins registry file)).forM Demand.check with
    | ok _ => simp [generate, hflat, hdemands, Except.map] at h
    | error other =>
      have hother : other = .lineage fault := by
        simpa [generate, hflat, hdemands, Except.map] using h
      obtain ⟨_, demand, _, _, _, hdemand⟩ := (forM_eq_error_iff _ _ _).1 (hother ▸ hdemands)
      exact absurd hdemand (demand.check_ne_lineage fault)

/-- Whether a fault says what is wrong with a class. -/
def Fault.isAboutClass : Fault → Bool
  | lineage _ => true
  | invalidTypeName _ => true
  | signatureTooLong _ _ => true
  | _ => false

/-- A demand that is not met is about a class. -/
theorem Demand.isAboutClass_of_check {demand : Demand} {fault : Fault}
    (h : demand.check = .error fault) : fault.isAboutClass = true := by
  cases demand with
  | typeName name =>
    rw [check] at h
    split at h
    · cases h
    · cases h
      rfl
  | signature m =>
    rw [check] at h
    split at h
    · cases h
    · cases h
      rfl

/-- A flattening that fails says what is wrong with a class. -/
theorem Class.isAboutClass_of_generate {c : Class} {settings : Settings} {file : Text}
    {registry : Registry} {fault : Fault} (h : c.generate settings file registry = .error fault) :
    fault.isAboutClass = true := by
  rcases c.flatten_cases settings file registry with ⟨_, hflat⟩ | ⟨_, other, _, hflat⟩ |
    ⟨_, line, _, hflat⟩
  · rw [generate, hflat] at h
    cases h
    rfl
  · rw [generate, hflat] at h
    cases h
    rfl
  · rw [generate, hflat] at h
    cases hdemands : (c.demands line (c.resolvedMixins registry file)).forM Demand.check with
    | ok _ =>
      rw [hdemands] at h
      cases h
    | error other =>
      rw [hdemands] at h
      cases h
      obtain ⟨_, demand, _, _, _, hdemand⟩ := (forM_eq_error_iff _ _ _).1 hdemands
      exact Demand.isAboutClass_of_check hdemand

end ClassFlattening
