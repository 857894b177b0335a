import ClassFlattening.SourcePath
import ClassFlattening.Proofs.Words

/-!
# Relative paths

A path is folded component by component: a name is added, the component for the directory above takes
the last name away again. A relative path leaves a folder upwards, one such component for each name
that it leaves, and goes on with the names of its target. Joined onto the folder it is folded back to
the names that were not left and those of the target, so an import leads to the path that it was made
for.
-/

namespace ClassFlattening

namespace Text

variable {piece : Text} {separator : Char}

/-- A text without the separator is one piece. -/
theorem splitOn_of_not_mem (h : separator ∉ piece) : piece.splitOn separator = [piece] := by
  induction piece with
  | nil => rfl
  | cons c piece ih =>
    rw [List.mem_cons, not_or] at h
    rw [splitOn, if_neg (Ne.symm h.1), ih h.2]

/-- The first piece of a text ends at the first separator. -/
theorem splitOn_append (h : separator ∉ piece) (t : Text) :
    Text.splitOn (piece ++ separator :: t) separator = piece :: t.splitOn separator := by
  induction piece with
  | nil => rw [List.nil_append, splitOn, if_pos rfl]
  | cons c piece ih =>
    rw [List.mem_cons, not_or] at h
    rw [List.cons_append, splitOn, if_neg (Ne.symm h.1), ih h.2]

end Text

namespace SourcePath

/-- The characters that are in no name: the slash, and what cannot stand in quotes in an import call on one
line. -/
def nameStops : Text := ['/', '"', '(', ')', '\n']

/-- A component that names a place below a folder and can stand in quotes in an import call. -/
structure IsName (component : Text) : Prop where
  ne_nil : component ≠ []
  ne_here : component ≠ here
  ne_up : component ≠ up
  plain : ∀ c ∈ component, c ∉ nameStops

instance decidableIsName (component : Text) : Decidable (IsName component) :=
  decidable_of_iff (component ≠ [] ∧ component ≠ here ∧ component ≠ up ∧
      component.all (fun c => !List.contains nameStops c) = true) <| by
    rw [List.all_eq_true]
    constructor
    · rintro ⟨hnil, hhere, hup, hplain⟩
      exact ⟨hnil, hhere, hup, fun c hc => by simpa using hplain c hc⟩
    · intro h
      exact ⟨h.ne_nil, h.ne_here, h.ne_up, fun c hc => by simpa using h.plain c hc⟩

/-- A name has no slash. -/
theorem IsName.slash_not_mem {component : Text} (h : IsName component) : '/' ∉ component :=
  fun hmem => h.plain '/' hmem (by decide)

/-- A name is added to a folded path. -/
theorem IsName.foldComponent_eq {component : Text} (h : IsName component) (folded : List Text) :
    foldComponent folded component = component :: folded := by
  unfold foldComponent
  rw [if_neg (not_or.2 ⟨h.ne_nil, h.ne_here⟩), if_neg h.ne_up]

/-- The component for the directory above takes a name away. -/
theorem IsName.foldComponent_up {component : Text} (h : IsName component) (folded : List Text) :
    foldComponent (component :: folded) up = folded := by
  unfold foldComponent
  rw [if_neg (by decide), if_pos rfl]
  exact if_neg h.ne_up

/-- A path folded onto a folded one. -/
def fold (folded : List Text) (path : Text) : List Text :=
  (path.splitOn '/').foldl foldComponent folded

/-- Names with a slash behind each. -/
def folder (names : List Text) : Text := names.flatMap fun name => name ++ ['/']

/-- The path that leaves as many folders as given. -/
def climb (folders : Nat) : Text := (List.replicate folders (up ++ ['/'])).flatten

/-- The path that leaves as many folders as given and goes on with names, with or without the component
for the directory itself in front. -/
def relative (dotted : Bool) (folders : Nat) (names : List Text) : Text :=
  (if dotted then here ++ ['/'] else []) ++ (climb folders ++ join names)

section Folding

variable {names : List Text} (folded : List Text)

theorem fold_append {piece : Text} (h : '/' ∉ piece) (path : Text) :
    fold folded (piece ++ ['/'] ++ path) = fold (foldComponent folded piece) path := by
  rw [fold, List.append_assoc, List.singleton_append, Text.splitOn_append h]
  rfl

/-- The names of a folder are added one by one. -/
theorem fold_folder (h : ∀ name ∈ names, IsName name) (path : Text) :
    fold folded (folder names ++ path) = fold (names.reverse ++ folded) path := by
  induction names generalizing folded with
  | nil => rfl
  | cons name names ih =>
    obtain ⟨hname, hnames⟩ := List.forall_mem_cons.1 h
    rw [folder, List.flatMap_cons, ← folder, List.append_assoc, fold_append folded hname.slash_not_mem,
      hname.foldComponent_eq, ih _ hnames, List.reverse_cons, List.append_assoc, List.singleton_append]

/-- Joined names are the folder of all but the last one, and the last one. -/
theorem join_concat (names : List Text) (last : Text) : join (names ++ [last]) = folder names ++ last := by
  induction names with
  | nil => simp [join, folder, List.intercalate]
  | cons name names ih =>
    have hne := List.append_ne_nil_of_right_ne_nil names (List.cons_ne_nil last [])
    obtain ⟨first, rest, hrest⟩ := List.exists_cons_of_ne_nil hne
    rw [folder, List.flatMap_cons, ← folder, List.append_assoc, ← ih, List.cons_append, hrest]
    simp [join, List.intercalate]

/-- Joined names are folded back to the names. -/
theorem fold_join (h : ∀ name ∈ names, IsName name) : fold folded (join names) = names.reverse ++ folded := by
  obtain rfl | ⟨front, last, rfl⟩ := List.eq_nil_or_concat' names
  · rfl
  · obtain ⟨hfront, hlast⟩ := List.forall_mem_append.1 h
    have hlast := hlast last (List.mem_singleton_self last)
    rw [join_concat, fold_folder folded hfront, fold, Text.splitOn_of_not_mem hlast.slash_not_mem,
      List.foldl_cons, List.foldl_nil, hlast.foldComponent_eq, List.reverse_append]
    rfl

/-- Leaving folders takes their names away. -/
theorem fold_climb (h : ∀ name ∈ names, IsName name) (path : Text) :
    fold (names ++ folded) (climb names.length ++ path) = fold folded path := by
  induction names with
  | nil => rfl
  | cons name names ih =>
    obtain ⟨hname, hnames⟩ := List.forall_mem_cons.1 h
    rw [List.length_cons, climb, List.replicate_succ, List.flatten_cons, ← climb, List.append_assoc,
      fold_append _ (by decide), List.cons_append, hname.foldComponent_up, ih hnames]

/-- The component for the directory itself adds nothing. -/
theorem fold_relative (dotted : Bool) (folders : Nat) (names : List Text) :
    fold folded (relative dotted folders names) = fold folded (climb folders ++ join names) := by
  cases dotted with
  | false => rfl
  | true => exact fold_append folded (by decide) _

end Folding

/-- A character that is in no name and neither a dot nor a slash is not in a relative path of the names. -/
theorem not_mem_relative {c : Char} (hdot : c ≠ '.') (hslash : c ≠ '/') {names : List Text}
    (h : ∀ name ∈ names, c ∉ name) (dotted : Bool) (folders : Nat) :
    c ∉ relative dotted folders names := by
  have hdotted : c ∉ if dotted then here ++ ['/'] else [] := by
    cases dotted with
    | false => exact List.not_mem_nil
    | true => simp [here, hdot, hslash]
  have hclimb : c ∉ climb folders := by
    simp [climb, up, List.mem_flatten, List.mem_replicate, hdot, hslash]
  have hjoin : c ∉ join names := by
    obtain rfl | ⟨front, last, rfl⟩ := List.eq_nil_or_concat' names
    · exact List.not_mem_nil
    · obtain ⟨hfront, hlast⟩ := List.forall_mem_append.1 h
      rw [join_concat, List.mem_append, not_or, folder, List.mem_flatMap]
      refine ⟨?_, hlast last (List.mem_singleton_self last)⟩
      rintro ⟨name, hname, hmem⟩
      rcases List.mem_append.1 hmem with hmem | hmem
      · exact hfront name hname hmem
      · exact hslash (List.mem_singleton.1 hmem)
  rw [relative, List.mem_append, List.mem_append, not_or, not_or]
  exact ⟨hdotted, hclimb, hjoin⟩

/-- An import is joined onto the folder of the file. -/
theorem resolve_concat (names : List Text) {last : Text} (h : '/' ∉ last) (imported : Text) :
    resolve (join (names ++ [last])) imported = normalize (folder names ++ imported) := by
  have hlast : ∀ c ∈ last, (c == '/') = false :=
    fun c hc => beq_eq_false_iff_ne.2 fun heq => h (heq ▸ hc)
  rw [resolve, join_concat]
  obtain rfl | ⟨front, name, rfl⟩ := List.eq_nil_or_concat' names
  · exact if_neg h
  · have hfolder : folder (front ++ [name]) ++ last = folder front ++ name ++ '/' :: last := by
      simp [folder]
    rw [hfolder, if_pos (by simp), Text.cutAfterLast_append (· == '/') (beq_self_eq_true '/') hlast]
    simp [folder]

/-- An import of a path made from the folder of a file to a target leads to the target. -/
theorem resolve_relative {common left target : List Text} {last : Text}
    (h : ∀ name ∈ common ++ left ++ last :: target, IsName name) (dotted : Bool) :
    resolve (join (common ++ left ++ [last])) (relative dotted left.length target) =
      join (common ++ target) := by
  obtain ⟨hfolder, hrest⟩ := List.forall_mem_append.1 h
  obtain ⟨hcommon, hleft⟩ := List.forall_mem_append.1 hfolder
  obtain ⟨hlast, htarget⟩ := List.forall_mem_cons.1 hrest
  have hreverse : ∀ name ∈ left.reverse, IsName name := fun name hname =>
    hleft name (List.mem_reverse.1 hname)
  have hclimb := fold_climb common.reverse hreverse (join target)
  rw [List.length_reverse] at hclimb
  rw [resolve_concat _ hlast.slash_not_mem, normalize, components, ← fold, fold_folder [] hfolder,
    fold_relative, List.append_nil, List.reverse_append, hclimb, fold_join common.reverse htarget,
    List.reverse_append, List.reverse_reverse, List.reverse_reverse]

end SourcePath

end ClassFlattening
