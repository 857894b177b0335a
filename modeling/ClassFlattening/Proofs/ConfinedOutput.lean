import ClassFlattening.Proofs.GenerationOutcome
import ClassFlattening.Proofs.NormalPaths

/-!
# Where a generation writes

A generation writes below its output folder alone. Two notions of a path meet here: a path is safe if no
component of it leads upwards, among others, and a path is folded component by component. Folding a path
without such components onto a folded one only adds names, so a safe path behind a root, and each front of
it that ends with a component, is folded to the root's components and names behind them. Every file that a
generation writes has a safe path below the output folder, since it has the path of a source.
-/

namespace ClassFlattening

namespace SourcePath

/-- Joined names go on below the first ones. -/
theorem join_append {front : List Text} (h : ∀ name ∈ front, isNamed name = true ∧ '/' ∉ name)
    (names : List Text) : join (front ++ names) = (join front).below names := by
  obtain rfl | ⟨first, last, rfl⟩ := List.eq_nil_or_concat' front
  · rw [Text.below]
    split
    · next hnil => rw [hnil]; rfl
    · rfl
  obtain ⟨hnamed, hslash⟩ := h last (by simp)
  have hlast : last ≠ [] := by
    rintro rfl
    cases hnamed
  have hfolder : ¬(join (first ++ [last]) = [] ∨ (join (first ++ [last])).getLast? = some '/') := by
    rw [join_concat]
    rintro (hnil | hend)
    · exact hlast (List.append_eq_nil_iff.1 hnil).2
    · rw [List.getLast?_append_of_ne_nil _ hlast] at hend
      exact hslash (List.mem_of_getLast? hend)
  obtain rfl | ⟨more, final, rfl⟩ := List.eq_nil_or_concat' names
  · rw [List.append_nil, Text.below, if_pos rfl]
  · rw [Text.below, if_neg (by simp), Text.slash, if_neg hfolder, join_concat, join_concat,
      ← List.append_assoc, join_concat]
    simp [folder]

/-- No component of a safe path leads upwards. -/
theorem up_not_mem_of_violation? {path : Text} (h : violation? path = none) : up ∉ path.splitOn '/' := by
  intro hup
  rw [violation?, if_pos hup] at h
  repeat' split at h
  all_goals cases h

/-- A path stays below every root: behind the root each front of it that ends with a component is folded to
the components of the root and names behind them, none of which leads upwards. -/
def StaysBelow (path : Text) : Prop :=
  ∀ (root : Text) (pieces : List Text), pieces <+: path.splitOn '/' →
    ∃ names, (∀ name ∈ names, name ≠ up) ∧
      components (root ++ '/' :: join pieces) = components root ++ names ∧
      normalize (root ++ '/' :: join pieces) = (normalize root).below names

/-- A safe path stays below every root. -/
theorem staysBelow_of_violation? {path : Text} (h : violation? path = none) : StaysBelow path := by
  intro root pieces hpieces
  have hup : up ∉ pieces := fun hmem => up_not_mem_of_violation? h (hpieces.subset hmem)
  have hcomponents : components (root ++ '/' :: join pieces) = components root ++ pieces.filter isNamed := by
    have hsplit (folded : List Text) :
        ((join pieces).splitOn '/').foldl foldComponent folded = pieces.foldl foldComponent folded := by
      by_cases hnil : pieces = []
      · rw [hnil]
        rfl
      · rw [splitOn_join hnil fun piece hpiece hslash =>
          (Text.mem_of_mem_splitOn (hpieces.subset hpiece) '/' hslash).2 rfl]
    rw [components, Text.splitOn_append_cons, List.foldl_append, hsplit, foldl_foldComponent hup,
      List.reverse_append, List.reverse_reverse, ← components]
  refine ⟨pieces.filter isNamed, fun name hname heq => hup (heq ▸ List.mem_of_mem_filter hname),
    hcomponents, ?_⟩
  rw [normalize, hcomponents, join_append fun name hname => isNamed_of_mem_components hname, normalize]

end SourcePath

section Generation

variable {tree : FileTree} {source output : Text}

/-- However a generation ends, it has written files with safe paths made of names. -/
theorem exists_written_of_generateAll (settings : Settings) (source output : Text) (h : tree.IsSound) :
    ∃ written : List (Text × Text),
      (∀ file ∈ written, IsOutputPath file.1) ∧
        tree.Overwritten output written (generateAll settings source output tree).1 := by
  rcases generateAll_cases settings source output h with ⟨fault, -, hall⟩ |
    ⟨visited, sources, hwalk, htexts, -, written, pending, hparts, hover, -⟩
  · rw [hall]
    exact ⟨[], by simp, h, fun _ hplace => hplace, by simp, fun _ _ => rfl⟩
  · refine ⟨written, fun file hfile => ?_, hover⟩
    have hplanned : (file.1, .ok file.2) ∈ planned settings sources := by
      rw [hparts]
      exact List.mem_append_left _ (List.mem_map_of_mem hfile)
    -- A file that is planned has the path of a source, and a source with an unsafe path was not taken in.
    obtain ⟨source, hsource, hpath⟩ := exists_source_of_mem_planned settings sources hplanned
    rw [← hpath]
    exact hwalk.isOutputPath htexts hsource

/-- What a path made of names leads to behind a folder's path is below the folder. -/
theorem exists_below_of_locate?_slash {path : Text} (hpath : IsFilePath path) {place : Place}
    (h : tree.locate? (output.slash path) = some place) :
    ∃ root, tree.follow [] (output.splitOn '/') = some root ∧ place = root ++ path.splitOn '/' := by
  obtain ⟨-, -, hfollow⟩ := FileTree.isRelativePath_of_locate? h
  rw [FileTree.follow_slash, Option.bind_eq_some_iff] at hfollow
  obtain ⟨root, hroot, hfollow⟩ := hfollow
  exact ⟨root, hroot, FileTree.eq_append_of_follow hpath hfollow⟩

/-- The files that were written have safe paths below an output folder, and every file that has changed is
one of these and lies below the place of the folder. -/
structure Confined (output : Text) (tree tree' : FileTree) : Prop where
  written : ∃ written : List (Text × Text), (∀ file ∈ written, SourcePath.violation? file.1 = none) ∧
    tree.Overwritten output written tree'
  below : ∀ place, tree'.fileAt? place ≠ tree.fileAt? place →
    ∃ path, SourcePath.violation? path = none ∧ tree'.locate? (output.slash path) = some place ∧
      ∃ root, tree'.follow [] (output.splitOn '/') = some root ∧ place = root ++ path.splitOn '/'

/-- However a generation ends, it has only changed files with safe paths below the output folder; and safe
paths stay below every root. The folders of the generation are named from the root of the tree, those below
which safe paths stay are any. -/
theorem generateAll_confined (settings : Settings) (source output : Text) (h : tree.IsSound) :
    Confined output tree (generateAll settings source output tree).1 ∧
      ∀ path, SourcePath.violation? path = none → SourcePath.StaysBelow path := by
  obtain ⟨written, hsafe, hover⟩ := exists_written_of_generateAll settings source output h
  refine ⟨⟨⟨written, fun file hfile => (hsafe file hfile).safe, hover⟩, fun place hchanged => ?_⟩,
    fun _ => SourcePath.staysBelow_of_violation?⟩
  by_contra hnone
  refine hchanged (hover.keeps place fun file hfile hlocate => hnone ?_)
  exact ⟨file.1, (hsafe file hfile).safe, hlocate,
    exists_below_of_locate?_slash (hsafe file hfile).named hlocate⟩

end Generation

/-- A source in the source folder and one in a folder of its own are written, and one whose path is not safe
is not. -/
theorem generateAll_confined_mixed :
    mixedTree.IsSound ∧
      generateAll { copyPassthrough := true } sourceFolder outputFolder mixedTree =
        (behindMixed, .ok mixedSummary) ∧
      Confined outputFolder mixedTree behindMixed ∧
      ∀ path, SourcePath.violation? path = none → SourcePath.StaysBelow path := by
  have hsound : mixedTree.IsSound := by decide +kernel
  have hrun : generateAll { copyPassthrough := true } sourceFolder outputFolder mixedTree =
      (behindMixed, .ok mixedSummary) := by decide +kernel
  have hconfined := generateAll_confined { copyPassthrough := true } sourceFolder outputFolder hsound
  rw [hrun] at hconfined
  exact ⟨hsound, hrun, hconfined⟩

end ClassFlattening
