import ClassFlattening.Proofs.FlatteningOutcome

/-!
# Checking a line and collecting it

A line of ancestors is walked in two ways: the check keeps the keys of the classes it has visited, the
collection keeps the classes themselves. The two walks are told apart by their books alone. As long as
the same classes are in both, they take the same step, so they agree on every registry, cyclic ones
included, and on which fault comes first where a line comes back to itself and is too long. A registry
that passes the check therefore never fails for a line later on.
-/

namespace ClassFlattening

namespace Registry

/-- The class that the parent reference of a class leads to. -/
def parentOf? (registry : Registry) (c : Class) : Option Class :=
  c.parent.bind fun r => registry.resolve? r c.file

/-- One step of the check from a member of the line. -/
theorem checkFrom_step (registry : Registry) (name : Text) (room : Nat)
    (visited : List (Text × Text)) (member : Class) :
    registry.checkFrom name room visited member.parent member.file =
      match registry.parentOf? member with
      | none => .ok ()
      | some parent =>
        if parent.key ∈ visited then .error (.circular name parent.name)
        else
          match room with
          | 0 => .error (.tooDeep name)
          | room + 1 =>
            registry.checkFrom name room (parent.key :: visited) parent.parent parent.file := by
  rw [checkFrom]
  cases hparent : registry.parentOf? member with
  | none =>
    unfold parentOf? at hparent
    simp only [hparent]
  | some parent =>
    unfold parentOf? at hparent
    cases room <;> simp only [hparent]

/-- One step of the collection from a member of the line. -/
theorem ancestorsFrom_step (registry : Registry) (c : Class) (room : Nat) (found : List Class)
    (member : Class) :
    registry.ancestorsFrom c room found member =
      match registry.parentOf? member with
      | none => .ok found
      | some parent =>
        if parent.key ∈ (c :: found).map Class.key then .error (.circular c.name parent.name)
        else
          match room with
          | 0 => .error (.tooDeep c.name)
          | room + 1 => registry.ancestorsFrom c room (found ++ [parent]) parent := by
  have hany (parent : Class) : ((c :: found).any fun a => a.key == parent.key) = true ↔
      parent.key ∈ (c :: found).map Class.key := by
    rw [List.any_eq_true, List.mem_map]
    simp only [beq_iff_eq]
  rw [ancestorsFrom]
  cases hparent : registry.parentOf? member with
  | none =>
    unfold parentOf? at hparent
    simp only [hparent]
  | some parent =>
    unfold parentOf? at hparent
    cases room <;> simp only [hparent, hany]

/-- Collecting a line depends on the class at its bottom through its file, its name and its parent. -/
theorem ancestors_congr {registry : Registry} {c d : Class} (hkey : d.key = c.key)
    (hparent : registry.parentOf? d = registry.parentOf? c) :
    registry.ancestors d = registry.ancestors c := by
  have hname : d.name = c.name := congrArg Prod.snd hkey
  have hkeys (found : List Class) : (d :: found).map Class.key = (c :: found).map Class.key := by
    rw [List.map_cons, List.map_cons, hkey]
  have hfrom (room : Nat) (found : List Class) (member : Class) :
      registry.ancestorsFrom d room found member = registry.ancestorsFrom c room found member := by
    induction room generalizing found member with
    | zero => rw [ancestorsFrom_step, ancestorsFrom_step, hkeys, hname]
    | succ room ih =>
      rw [ancestorsFrom_step, ancestorsFrom_step, hkeys, hname]
      simp only [ih]
  rw [ancestors, ancestors, hfrom, ancestorsFrom_step, ancestorsFrom_step, hparent]

/-- The check and the collection go the same way from a member on, as long as the classes visited are
the class itself and the ancestors found. -/
theorem checkFrom_eq_map_ancestorsFrom (registry : Registry) (c : Class) (room : Nat)
    (visited : List (Text × Text)) (found : List Class) (member : Class)
    (hvisited : ∀ key, key ∈ visited ↔ key ∈ (c :: found).map Class.key) :
    registry.checkFrom c.name room visited member.parent member.file =
      (registry.ancestorsFrom c room found member).map fun _ => () := by
  induction room generalizing visited found member with
  | zero =>
    rw [checkFrom_step, ancestorsFrom_step]
    cases registry.parentOf? member with
    | none => rfl
    | some parent =>
      simp only [hvisited]
      split <;> rfl
  | succ room ih =>
    rw [checkFrom_step, ancestorsFrom_step]
    cases registry.parentOf? member with
    | none => rfl
    | some parent =>
      simp only [hvisited]
      split
      · rfl
      · apply ih
        intro key
        simp only [List.mem_cons, hvisited, List.map_cons, List.map_append, List.map_nil,
          List.mem_append, List.not_mem_nil, or_false]
        exact or_left_comm.trans (or_congr_right or_comm)

/-- The check of a class's line is its collection without the result. -/
theorem checkLineage_eq_map_ancestors (registry : Registry) (c : Class) :
    registry.checkLineage c.name c.parent c.file = (registry.ancestors c).map fun _ => () :=
  registry.checkFrom_eq_map_ancestorsFrom c lineageLimit [c.key] [] c (by simp)

/-- A registry passes the check exactly when the line of every class can be collected. -/
theorem validate_eq_ok_iff (registry : Registry) :
    registry.validate = .ok () ↔
      ∀ c ∈ registry.classes, ∃ line, registry.ancestors c = .ok line := by
  rw [validate, forM_eq_ok_iff]
  refine forall₂_congr fun c _ => ?_
  rw [checkLineage_eq_map_ancestors]
  cases registry.ancestors c with
  | error fault => simp [Except.map]
  | ok line => simp [Except.map]

/-- Checking the line of a class and collecting it succeed together and fail with the same fault, for
every registry and class. Behind a registry that passed the check no class of it is refused for its
line. -/
theorem checkLineage_agrees_ancestors (registry : Registry) :
    (∀ c : Class,
      (registry.checkLineage c.name c.parent c.file = .ok () ↔
          ∃ line, registry.ancestors c = .ok line) ∧
        ∀ fault, registry.checkLineage c.name c.parent c.file = .error fault ↔
          registry.ancestors c = .error fault) ∧
      (registry.validate = .ok () → ∀ c ∈ registry.classes, ∀ settings file fault,
        c.generate settings file registry ≠ .error (.lineage fault)) := by
  constructor
  · intro c
    rw [checkLineage_eq_map_ancestors]
    cases registry.ancestors c with
    | error fault => simp [Except.map]
    | ok line => simp [Except.map]
  · intro hvalid c hc settings file fault hgenerate
    obtain ⟨line, hline⟩ := (registry.validate_eq_ok_iff.1 hvalid) c hc
    rw [Class.ancestors_of_generate_lineage hgenerate] at hline
    cases hline

/-- A class whose parent is declared in another file. -/
def acrossFiles : Registry where
  files := [
    { path := "a".toList, classes := [{ name := "Base".toList, file := "a".toList }] },
    { path := "b".toList
      aliases := [("up".toList, "a".toList)]
      classes := [{ name := "Child".toList, parent := some "up.Base".toList, file := "b".toList }] }]

/-- Neither class of two files fails for its line. -/
theorem generate_ne_lineage_acrossFiles :
    acrossFiles.validate = .ok () ∧ acrossFiles.classes.length = 2 ∧
      ∀ c ∈ acrossFiles.classes,
        c.generate {} c.file acrossFiles ≠ .error (.lineage (.tooDeep c.name)) := by
  have hvalid : acrossFiles.validate = .ok () := rfl
  refine ⟨hvalid, rfl, fun c hc => ?_⟩
  exact (checkLineage_agrees_ancestors acrossFiles).2 hvalid c hc {} c.file _

end Registry

end ClassFlattening
