import ClassFlattening.Flattening
import ClassFlattening.Proofs.ByOffset.Retargeting

/-!
# Flattening step by step

A class is flattened in one go: the line of ancestors is collected in a loop that counts its members, and
each copy is checked and then rewritten before the next one is looked at. `Attempt` is the type of such
programs, which may end with a fault as well as go wrong. `settled` is one that does not go wrong; it is
kept by doing one thing after the other, so the flattening settles for what the demands decide.
-/

namespace ClassFlattening

namespace ByOffset

/-- A program over offsets that may end with a fault. -/
abbrev Attempt (α : Type) := ExceptT Fault Steps α

/-- A success or a fault without a misstep. -/
def settled {α : Type} (outcome : Except Fault α) : Attempt α := ExceptT.mk (pure outcome)

/-- The registered classes, as those that a line of ancestors leads through. -/
abbrev Hierarchy := Registry

/-- Collects a class's line from one of its members on. The members found so far are given nearest
first. -/
def Hierarchy.ancestorsFrom (registry : Hierarchy) (c : Class) (found : List Class) (member : Class) :
    Steps (Except LineageFault (List Class)) :=
  match member.parent.bind fun r => registry.resolve? r member.file with
  | none => pure (.ok found)
  | some parent =>
    if (c :: found).any fun a => a.key == parent.key then pure (.error (.circular c.name parent.name))
    else if lineageLimit ≤ found.length then pure (.error (.tooDeep c.name))
    else registry |>.ancestorsFrom c (found ++ [parent]) parent
partial_fixpoint

/-- The ancestors of a class, nearest first. -/
def ancestors (registry : Registry) (c : Class) : Attempt (List Class) :=
  ExceptT.mk ((Except.mapError Fault.lineage) <$> Hierarchy.ancestorsFrom registry c [] c)

/-- Stops at the first demand that is not met. -/
def meet (demands : List Demand) : Attempt Unit := settled (demands.forM Demand.check)

/-- Copies a method into a class once the demands are met. -/
def copy (c : Class) (demands : List Demand) (offer : Offer) : Attempt FlatFunction := do
  meet demands
  return ⟨offer.nameIn c, ← rename offer.method.source offer.donor c.name⟩

/-- Copies a constructor or destructor into a class once its signature is found short enough. -/
def copyLifecycle (c : Class) (offer : Offer) : Attempt FlatFunction := do
  meet [.signature offer.method]
  return ⟨offer.method.name, ← retarget offer.method.source offer.donor c.name⟩

/-- Copies what a mixin adds to a class. -/
def copyMixin (c : Class) (entry : Class × List Offer) : Attempt (List FlatFunction) := do
  meet [.typeName entry.1.name]
  entry.2.mapM fun offer => copy c [.signature offer.method] offer

/-- The text of a flattened class. -/
def generate (c : Class) (settings : Settings) (file : Text) (registry : Registry) : Attempt Text := do
  meet [.typeName c.name]
  let ancestors ← ancestors registry c
  let mixins := c.resolvedMixins registry file
  let lifecycle ← (c.lifecycle ancestors).mapM (copyLifecycle c)
  let inherited ← (c.inherited ancestors).mapM fun offer =>
    copy c [.signature offer.method, .typeName offer.donor] offer
  let mixed ← (mixedIn (c.ownNames ++ Offer.names (c.inherited ancestors)) mixins).mapM
    (copyMixin c)
  let flat : FlatStruct :=
    { visibility := c.visibility
      name := c.name
      fields := ancestors.reverse.flatMap Class.layout ++ mixins.flatMap Class.layout ++ c.layout
      constants := c.constants
      functions :=
        c.methods.map (fun m => ⟨m.name, m.source⟩) ++ lifecycle ++ inherited ++ mixed.flatten ++
          c.properties.flatMap (accessors settings c) }
  return flat.text

section Settled

variable {α β : Type}

theorem settled_pure (a : α) : (pure a : Attempt α) = settled (pure a) := rfl

theorem settled_bind (x : Except Fault α) (f : α → Except Fault β) :
    (settled x >>= fun a => settled (f a)) = settled (x >>= f) := by
  cases x <;> rfl

/-- Settled steps over a list settle for what the steps decide. -/
theorem mapM_settled (f : α → Except Fault β) (xs : List α) :
    (xs.mapM fun x => settled (f x)) = settled (xs.mapM f) := by
  induction xs with
  | nil => rfl
  | cons x xs ih =>
    rw [List.mapM_cons, List.mapM_cons, ih]
    cases f x with
    | error fault => rfl
    | ok b => cases xs.mapM f <;> rfl

/-- The demands of two lists are checked one list after the other. -/
theorem forM_check_append (xs ys : List Demand) :
    (xs ++ ys).forM Demand.check = (do xs.forM Demand.check; ys.forM Demand.check) :=
  List.forM_append

/-- Checking each element before it is mapped is checking all of them. -/
theorem mapM_checked (demands : α → List Demand) (f : α → β) (xs : List α) :
    (xs.mapM fun x => do (demands x).forM Demand.check; return f x) = (do
      (xs.flatMap demands).forM Demand.check
      return xs.map f : Except Fault (List β)) := by
  induction xs with
  | nil => rfl
  | cons x xs ih =>
    rw [List.mapM_cons, ih, List.flatMap_cons, forM_check_append]
    cases (demands x).forM Demand.check with
    | error fault => rfl
    | ok _ => cases (xs.flatMap demands).forM Demand.check <;> rfl

/-- A check followed by a step that makes no misstep. -/
theorem meet_bind (demands : List Demand) (f : α) :
    (meet demands >>= fun _ => pure f) = settled (do demands.forM Demand.check; return f) :=
  settled_bind _ _

end Settled

/-- Collecting a line ends: with each member there is room for one less. -/
theorem ancestorsFrom_eq (registry : Registry) (c : Class) {room : Nat} {found : List Class}
    (hroom : found.length + room = lineageLimit) (member : Class) :
    Hierarchy.ancestorsFrom registry c found member = pure (registry.ancestorsFrom c room found member) := by
  induction room generalizing found member with
  | zero =>
    rw [Hierarchy.ancestorsFrom, Registry.ancestorsFrom]
    cases member.parent.bind fun r => registry.resolve? r member.file with
    | none => rfl
    | some parent =>
      dsimp only
      rw [if_pos (show lineageLimit ≤ found.length by omega)]
      split <;> rfl
  | succ room ih =>
    have hnext (parent : Class) : (found ++ [parent]).length + room = lineageLimit := by
      rw [List.length_append, List.length_singleton]
      omega
    rw [Hierarchy.ancestorsFrom, Registry.ancestorsFrom]
    cases member.parent.bind fun r => registry.resolve? r member.file with
    | none => rfl
    | some parent =>
      dsimp only
      rw [if_neg (show ¬lineageLimit ≤ found.length by omega), ih (hnext parent)]
      split <;> rfl

theorem ancestors_eq (registry : Registry) (c : Class) :
    ancestors registry c = settled ((registry.ancestors c).mapError Fault.lineage) := by
  rw [ancestors, ancestorsFrom_eq registry c (Nat.zero_add lineageLimit)]
  rfl

variable (c : Class) (offer : Offer)

theorem copy_eq (demands : List Demand) :
    copy c demands offer =
      settled (do demands.forM Demand.check; return offer.copied c) := by
  rw [copy, rename_eq]
  exact meet_bind demands _

theorem copyLifecycle_eq :
    copyLifecycle c offer =
      settled (do [Demand.signature offer.method].forM Demand.check; return offer.retargeted c) := by
  rw [copyLifecycle, retarget_eq]
  exact meet_bind _ _

theorem copyMixin_eq (entry : Class × List Offer) :
    copyMixin c entry = settled (do
      (Demand.typeName entry.1.name :: entry.2.map fun offer => .signature offer.method).forM
        Demand.check
      return entry.2.map (·.copied c)) := by
  have hadded := mapM_checked (fun offer => [.signature offer.method]) (·.copied c) entry.2
  rw [← List.map_eq_flatMap] at hadded
  have hdemands := forM_check_append [.typeName entry.1.name]
    (entry.2.map fun offer => .signature offer.method)
  rw [List.singleton_append] at hdemands
  rw [copyMixin, funext fun offer => copy_eq c offer [.signature offer.method], mapM_settled, hadded, meet,
    settled_bind, hdemands, bind_assoc]

/-- Copying constructors and destructors makes no misstep. -/
theorem mapM_copyLifecycle (offers : List Offer) :
    offers.mapM (copyLifecycle c) = settled (do
      (offers.map fun offer => Demand.signature offer.method).forM Demand.check
      return offers.map (·.retargeted c)) := by
  rw [funext fun offer => copyLifecycle_eq c offer, mapM_settled, mapM_checked, ← List.map_eq_flatMap]

/-- Copying the methods of the ancestors makes no misstep. -/
theorem mapM_copy (demands : Offer → List Demand) (offers : List Offer) :
    (offers.mapM fun offer => copy c (demands offer) offer) = settled (do
      (offers.flatMap demands).forM Demand.check
      return offers.map (·.copied c)) := by
  rw [funext fun offer => copy_eq c offer (demands offer), mapM_settled, mapM_checked]

/-- Copying the methods of the mixins makes no misstep. -/
theorem mapM_copyMixin (mixed : List (Class × List Offer)) :
    mixed.mapM (copyMixin c) = settled (do
      (mixed.flatMap fun entry => Demand.typeName entry.1.name ::
        entry.2.map fun offer => .signature offer.method).forM Demand.check
      return mixed.map fun entry => entry.2.map (·.copied c)) := by
  rw [funext fun entry => copyMixin_eq c entry, mapM_settled, mapM_checked]

/-- Flattening a class makes no misstep. -/
theorem generate_eq (settings : Settings) (file : Text) (registry : Registry) :
    generate c settings file registry = settled (c.generate settings file registry) := by
  have hname : [Demand.typeName c.name].forM Demand.check =
      (do (Demand.typeName c.name).check; pure ()) := rfl
  rw [generate, Class.generate, Class.flatten]
  simp only [ancestors_eq, mapM_copyLifecycle, mapM_copy, mapM_copyMixin, settled_pure, meet, settled_bind,
    bind_assoc, pure_bind, Class.demands, forM_check_append, hname]
  cases (Demand.typeName c.name).check with
  | error fault => rfl
  | ok _ =>
    cases registry.ancestors c with
    | error fault => rfl
    | ok line =>
      -- Both sides check the same demands in the same order and then give the same struct.
      dsimp only [Except.mapError, bind, Except.bind]
      split
      · rfl
      · split
        · rfl
        · split
          · rfl
          · rfl

end ByOffset

end ClassFlattening
