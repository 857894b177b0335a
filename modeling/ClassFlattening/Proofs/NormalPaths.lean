import ClassFlattening.Proofs.FileTrees

/-!
# Normal paths

A path is folded component by component, and what is folded so far is kept last component first. A step
upwards takes away a name if there is one, so a folded path always has its steps upwards in front of its
names, and paths of this form are the ones that normalising leaves alone.

What a path does to a folded one, its own folded form does as well: a component is added to the folded form
of the path in front of it, or takes its last name away, just where it would do so on the way. Both parts of
a joined path may therefore be normalised before they are joined.
-/

namespace ClassFlattening

namespace SourcePath

/-- Whether a component adds a name to a folded path, unless it leads upwards. -/
def isNamed (component : Text) : Bool := component != [] && component != here

/-- A component adds a name unless it stands for the directory itself. -/
theorem isNamed_iff {component : Text} :
    isNamed component = true ↔ ¬(component = [] ∨ component = here) := by
  rw [isNamed, Bool.and_eq_true, bne_iff_ne, bne_iff_ne, not_or]

/-- Components that do not lead upwards add their names to a folded path and take nothing away. -/
theorem foldl_foldComponent {pieces : List Text} (h : up ∉ pieces) (folded : List Text) :
    pieces.foldl foldComponent folded = (pieces.filter isNamed).reverse ++ folded := by
  induction pieces generalizing folded with
  | nil => rfl
  | cons piece pieces ih =>
    rw [List.mem_cons, not_or] at h
    rw [List.foldl_cons, ih h.2]
    unfold foldComponent
    split
    · next hdot =>
      have hunnamed : isNamed piece = false := by
        rcases hdot with rfl | rfl <;> rfl
      rw [List.filter_cons_of_neg (by rw [hunnamed]; exact Bool.false_ne_true)]
    · next hname =>
      rw [if_neg (Ne.symm h.1), List.filter_cons_of_pos (isNamed_iff.2 hname), List.reverse_cons,
        List.append_assoc, List.singleton_append]

/-- A component that stands for a place below a directory and for no other. -/
structure IsProper (component : Text) : Prop where
  ne_nil : component ≠ []
  ne_here : component ≠ here
  ne_up : component ≠ up
  slash_not_mem : '/' ∉ component

/-- A path in normal form: steps upwards, and proper components behind them. -/
def IsNormal (path : Text) : Prop :=
  ∃ (steps : Nat) (names : List Text), path = join (List.replicate steps up ++ names) ∧
    ∀ name ∈ names, IsProper name

/-- A folded path, last component first: proper components, and steps upwards behind them. -/
def IsFolded (folded : List Text) : Prop :=
  ∃ (steps : Nat) (names : List Text), folded = names ++ List.replicate steps up ∧
    ∀ name ∈ names, IsProper name

/-- A proper component adds its name. -/
theorem IsProper.isNamed {component : Text} (h : IsProper component) : isNamed component = true :=
  isNamed_iff.2 (not_or.2 ⟨h.ne_nil, h.ne_here⟩)

section Shape

variable {folded : List Text}

/-- A component that stands for the directory itself changes nothing. -/
theorem foldComponent_of_not_isNamed {component : Text} (h : isNamed component = false) :
    foldComponent folded component = folded := by
  rw [Bool.eq_false_iff, Ne, isNamed_iff, not_not] at h
  exact if_pos h

/-- A named component that does not lead upwards is added. -/
theorem foldComponent_of_isNamed {component : Text} (h : isNamed component = true)
    (hup : component ≠ up) : foldComponent folded component = component :: folded := by
  unfold foldComponent
  rw [if_neg (isNamed_iff.1 h), if_neg hup]

/-- A step upwards takes a name away. -/
theorem foldComponent_up {name : Text} (h : name ≠ up) : foldComponent (name :: folded) up = folded :=
  if_neg h

/-- A step upwards is kept where there is no name to take away. -/
theorem foldComponent_up_replicate (steps : Nat) :
    foldComponent (List.replicate steps up) up = List.replicate (steps + 1) up := by
  cases steps with
  | zero => rfl
  | succ steps => rfl

/-- Steps upwards alone are folded to themselves. -/
theorem foldl_replicate_up (steps : Nat) :
    (List.replicate steps up).foldl foldComponent [] = List.replicate steps up := by
  induction steps with
  | zero => rfl
  | succ steps ih =>
    rw [List.replicate_succ', List.foldl_append, ih, List.foldl_cons, List.foldl_nil,
      foldComponent_up_replicate, List.replicate_succ']

/-- A folded path stays one with every component. -/
theorem IsFolded.foldComponent (h : IsFolded folded) {component : Text} (hslash : '/' ∉ component) :
    IsFolded (foldComponent folded component) := by
  obtain ⟨steps, names, rfl, hnames⟩ := h
  cases hnamed : isNamed component with
  | false =>
    rw [foldComponent_of_not_isNamed hnamed]
    exact ⟨steps, names, rfl, hnames⟩
  | true =>
    by_cases hup : component = up
    · subst hup
      cases names with
      | nil => exact ⟨steps + 1, [], foldComponent_up_replicate steps, by simp⟩
      | cons name names =>
        obtain ⟨hname, hrest⟩ := List.forall_mem_cons.1 hnames
        exact ⟨steps, names, foldComponent_up hname.ne_up, hrest⟩
    · obtain ⟨hnil, hhere⟩ := not_or.1 (isNamed_iff.1 hnamed)
      refine ⟨steps, component :: names, foldComponent_of_isNamed hnamed hup, ?_⟩
      exact List.forall_mem_cons.2 ⟨⟨hnil, hhere, hup, hslash⟩, hnames⟩

/-- A folded path stays one with components that are added one after the other. -/
theorem IsFolded.foldl (h : IsFolded folded) {pieces : List Text} (hslash : ∀ piece ∈ pieces, '/' ∉ piece) :
    IsFolded (pieces.foldl SourcePath.foldComponent folded) := by
  induction pieces generalizing folded with
  | nil => exact h
  | cons piece pieces ih =>
    obtain ⟨hpiece, hrest⟩ := List.forall_mem_cons.1 hslash
    exact ih (h.foldComponent hpiece) hrest

/-- The empty path is folded. -/
theorem isFolded_nil : IsFolded [] := ⟨0, [], rfl, by simp⟩

/-- A path is taken apart at its slashes, so none is left in the pieces. -/
theorem slash_not_mem_splitOn (path : Text) : ∀ piece ∈ path.splitOn '/', '/' ∉ piece :=
  fun _ hpiece hslash => (Text.mem_of_mem_splitOn hpiece '/' hslash).2 rfl

/-- A path is folded to a folded path. -/
theorem isFolded_fold (path : Text) : IsFolded (fold [] path) :=
  isFolded_nil.foldl (slash_not_mem_splitOn path)

/-- All components of a folded path are named and without slashes. -/
theorem IsFolded.isNamed_of_mem (h : IsFolded folded) {component : Text} (hmem : component ∈ folded) :
    isNamed component = true ∧ '/' ∉ component := by
  obtain ⟨steps, names, rfl, hnames⟩ := h
  rcases List.mem_append.1 hmem with hname | hup
  · exact ⟨(hnames component hname).isNamed, (hnames component hname).slash_not_mem⟩
  · rw [List.eq_of_mem_replicate hup]
    decide

end Shape

/-- The components of a path are names without slashes. -/
theorem isNamed_of_mem_components {path name : Text} (h : name ∈ components path) :
    isNamed name = true ∧ '/' ∉ name :=
  (isFolded_fold path).isNamed_of_mem (List.mem_reverse.1 h)

/-- The normal form of a path is normal. -/
theorem isNormal_normalize (path : Text) : IsNormal (normalize path) := by
  obtain ⟨steps, names, hfold, hnames⟩ := isFolded_fold path
  refine ⟨steps, names.reverse, ?_, fun name hname => hnames name (List.mem_reverse.1 hname)⟩
  rw [normalize, components, ← fold, hfold, List.reverse_append, List.reverse_replicate]

/-- Joined components of a folded path are folded to it again. -/
theorem fold_join_reverse {folded : List Text} (h : IsFolded folded) :
    fold [] (join folded.reverse) = folded := by
  obtain rfl | hne := eq_or_ne folded []
  · rfl
  rw [fold, splitOn_join (List.reverse_ne_nil_iff.2 hne) fun name hname =>
    (h.isNamed_of_mem (List.mem_reverse.1 hname)).2]
  obtain ⟨steps, names, rfl, hnames⟩ := h
  have hup : up ∉ names.reverse := fun hmem => (hnames up (List.mem_reverse.1 hmem)).ne_up rfl
  have hnamed : names.reverse.filter isNamed = names.reverse :=
    List.filter_eq_self.2 fun name hname => (hnames name (List.mem_reverse.1 hname)).isNamed
  rw [List.reverse_append, List.reverse_replicate, List.foldl_append, foldl_replicate_up,
    foldl_foldComponent hup, hnamed, List.reverse_reverse]

/-- A path and its normal form are folded alike. -/
theorem fold_normalize (path : Text) : fold [] (normalize path) = fold [] path :=
  fold_join_reverse (isFolded_fold path)

/-- A path is its own normal form exactly if it is normal. -/
theorem normalize_eq_self_iff {path : Text} : normalize path = path ↔ IsNormal path := by
  constructor
  · intro h
    rw [← h]
    exact isNormal_normalize path
  · rintro ⟨steps, names, rfl, hnames⟩
    have hfolded : IsFolded (names.reverse ++ List.replicate steps up) :=
      ⟨steps, names.reverse, rfl, fun name hname => hnames name (List.mem_reverse.1 hname)⟩
    have hjoin := fold_join_reverse hfolded
    rw [List.reverse_append, List.reverse_replicate, List.reverse_reverse] at hjoin
    rw [normalize, components, ← fold, hjoin, List.reverse_append, List.reverse_replicate,
      List.reverse_reverse]

/-- A folded path put on another one, its components in their order. -/
def onto (folded more : List Text) : List Text :=
  more.foldr (fun component below => foldComponent below component) folded

/-- A component does the same in front of putting a folded path on another one and behind it. -/
theorem onto_foldComponent (folded : List Text) {more : List Text} (h : IsFolded more)
    (component : Text) :
    onto folded (foldComponent more component) = foldComponent (onto folded more) component := by
  cases hnamed : isNamed component with
  | false => rw [foldComponent_of_not_isNamed hnamed, foldComponent_of_not_isNamed hnamed]
  | true =>
    by_cases hup : component = up
    · subst hup
      obtain ⟨steps, names, rfl, hnames⟩ := h
      cases names with
      | nil =>
        rw [List.nil_append, foldComponent_up_replicate]
        rfl
      | cons name names =>
        -- The name is taken away, in front of the other path and on it.
        have hname := (List.forall_mem_cons.1 hnames).1
        rw [List.cons_append, foldComponent_up hname.ne_up, onto, onto, List.foldr_cons,
          foldComponent_of_isNamed hname.isNamed hname.ne_up, foldComponent_up hname.ne_up]
    · rw [foldComponent_of_isNamed hnamed hup]
      rfl

/-- A path does to a folded one what its own folded form does. -/
theorem fold_eq_onto (folded : List Text) (path : Text) : fold folded path = onto folded (fold [] path) := by
  have hfoldl (pieces : List Text) (hslash : ∀ piece ∈ pieces, '/' ∉ piece) {more : List Text}
      (hmore : IsFolded more) : pieces.foldl foldComponent (onto folded more) =
        onto folded (pieces.foldl foldComponent more) := by
    induction pieces generalizing more with
    | nil => rfl
    | cons piece pieces ih =>
      obtain ⟨hpiece, hrest⟩ := List.forall_mem_cons.1 hslash
      rw [List.foldl_cons, List.foldl_cons, ← onto_foldComponent folded hmore,
        ih hrest (hmore.foldComponent hpiece)]
  exact hfoldl _ (slash_not_mem_splitOn path) isFolded_nil

/-- Joined paths are folded one after the other. -/
theorem fold_slash (folded : List Text) (front back : Text) :
    fold folded (front ++ '/' :: back) = fold (fold folded front) back := by
  rw [fold, Text.splitOn_append_cons, List.foldl_append, ← fold, ← fold]

/-- Normal forms are canonical, and joining respects them. What `normalize` gives is some steps upwards and
behind them components none of which is empty or stands for the directory itself or the one above; it leaves
just the paths of this form as they are, its own results among them; and a joined path has the same normal form
as the normal forms of its parts joined. -/
theorem normalize_canonical (path front back : Text) :
    IsNormal (normalize path) ∧ (normalize path = path ↔ IsNormal path) ∧
      normalize (normalize path) = normalize path ∧
      normalize (front ++ '/' :: back) = normalize (normalize front ++ '/' :: normalize back) := by
  have hnormal := isNormal_normalize path
  refine ⟨hnormal, normalize_eq_self_iff, normalize_eq_self_iff.2 hnormal, ?_⟩
  have hfold : fold [] (front ++ '/' :: back) = fold [] (normalize front ++ '/' :: normalize back) := by
    calc fold [] (front ++ '/' :: back)
        = onto (fold [] front) (fold [] back) := by rw [fold_slash, fold_eq_onto]
      _ = onto (fold [] (normalize front)) (fold [] (normalize back)) := by
        rw [fold_normalize, fold_normalize]
      _ = fold [] (normalize front ++ '/' :: normalize back) := by rw [← fold_eq_onto, ← fold_slash]
  rw [normalize, components, ← fold, hfold, fold, ← components, ← normalize]

-- A step upwards in the second path takes a name of the first one away.
example : normalize "a/./b/".toList = "a/b".toList ∧ normalize "x//../../c".toList = "../c".toList ∧
    normalize "a/./b//x//../../c".toList = "a/c".toList := by decide

end SourcePath

end ClassFlattening
