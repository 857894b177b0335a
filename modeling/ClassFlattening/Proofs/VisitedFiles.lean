import ClassFlattening.Proofs.WrittenFiles
import Mathlib.Data.Char
import Mathlib.Data.List.Lex
import Mathlib.Data.List.Sort

/-!
# The files that a walk visits

A walk through a folder comes upon what lies in the folders that it can descend into and is no such folder
itself. What it finds is listed by a sort, so each thing is visited once, in the order of the names that
lead to it. Everything a survey takes in is found that way: the sources are the texts of the visited files
whose paths are safe, and the paths passed over are those of the other ones.
-/

namespace ClassFlattening

/-- Sorting is insertion sort. -/
theorem sortBy_eq_insertionSort {α : Type} (le : α → α → Bool) (xs : List α) :
    sortBy le xs = xs.insertionSort fun a b => le a b = true := by
  have hinsert (x : α) (ys : List α) :
      insertBy le x ys = ys.orderedInsert (fun a b => le a b = true) x := by
    induction ys with
    | nil => rfl
    | cons y ys ih => rw [insertBy, ih, List.orderedInsert]
  induction xs with
  | nil => rfl
  | cons x xs ih => rw [sortBy, List.foldr_cons, ← sortBy, ih, hinsert, List.insertionSort_cons]

/-- Texts are in the order of their characters. -/
theorem Text.isBefore_iff {s t : Text} : s.isBefore t = true ↔ s < t := by
  have hchar : (fun c d : Char => decide (c.toNat < d.toNat)) = fun c d => decide (c < d) := by
    funext c d
    exact decide_eq_decide.2 Iff.rfl
  rw [isBefore, hchar]
  exact List.lex_eq_true_iff_lt

namespace Place

/-- Places are in the order of their names. -/
theorem isBefore_iff {p q : Place} : p.isBefore q = true ↔ p < q := by
  have htext : Text.isBefore = fun s t => decide (s < t) := by
    funext s t
    rw [Bool.eq_iff_iff, Text.isBefore_iff, decide_eq_true_iff]
  rw [isBefore, htext]
  exact List.lex_eq_true_iff_lt

/-- Of two places, one comes before the other. -/
theorem isBefore_of_ne {p q : Place} (hne : p ≠ q) (h : q.isBefore p = false) : p.isBefore q = true := by
  rw [← Bool.not_eq_true, isBefore_iff] at h
  exact isBefore_iff.2 (lt_of_le_of_ne (not_lt.1 h) hne)

/-- No place comes before itself. -/
theorem ne_of_isBefore {p q : Place} (h : p.isBefore q = true) : p ≠ q :=
  ne_of_lt (isBefore_iff.1 h)

end Place

/-- What is at different places is sorted by the places. -/
theorem pairwise_sortPlaces {α : Type} (entries : List (Place × α)) :
    (sortPlaces entries).Pairwise fun a b => b.1.isBefore a.1 = false := by
  have hle (a b : Place × α) : (!Place.isBefore b.1 a.1) = true ↔ a.1 ≤ b.1 := by
    rw [Bool.not_eq_true', ← Bool.not_eq_true, Place.isBefore_iff, not_lt]
  have htotal : Std.Total fun a b : Place × α => (!Place.isBefore b.1 a.1) = true :=
    ⟨fun a b => by simpa only [hle] using le_total a.1 b.1⟩
  have htrans : IsTrans (Place × α) fun a b => (!Place.isBefore b.1 a.1) = true :=
    ⟨fun a b c hab hbc => (hle a c).2 (le_trans ((hle a b).1 hab) ((hle b c).1 hbc))⟩
  rw [sortPlaces, sortBy_eq_insertionSort]
  exact (List.pairwise_insertionSort _ entries).imp fun h => by simpa using h

/-- The names that lead from a place to another one below it. -/
def Place.behind? (root place : Place) : Option Place :=
  let names := place.drop root.length
  if root.isPrefixOf place && !names.isEmpty && names.head? != some SourcePath.up then some names else none

/-- The names behind a place lead on from it, and not upwards. -/
theorem Place.behind?_eq_some_iff {root place names : Place} :
    root.behind? place = some names ↔
      place = root ++ names ∧ names ≠ [] ∧ names.head? ≠ some SourcePath.up := by
  unfold behind?
  dsimp only
  constructor
  · intro h
    split at h
    · next hnames =>
      cases h
      simp only [Bool.and_eq_true, Bool.not_eq_true', List.isEmpty_eq_false_iff, bne_iff_ne,
        List.isPrefixOf_iff_prefix] at hnames
      obtain ⟨⟨⟨names, rfl⟩, hne⟩, hup⟩ := hnames
      rw [List.drop_left] at hne hup ⊢
      exact ⟨rfl, hne, hup⟩
    · cases h
  · rintro ⟨rfl, hne, hup⟩
    have hlead : root.isPrefixOf (root ++ names) = true :=
      List.isPrefixOf_iff_prefix.2 (List.prefix_append root names)
    simp [hlead, hne, hup]

/-- What is made of something that is listed below a folder, by the paths of the folder that it lies in and
of itself. -/
def candidate? (folder : Text) (names : Place) (entry : Entry) : Option (Place × Option Content) :=
  if isShortPath (folder.below names.dropLast) then
    if isShortPath (folder.below names) then entry.content?.map fun content => (names, some content)
    else some (names, none)
  else none

/-- Candidates are made one by one of what has names. -/
theorem candidates_eq {folder : Text} (hfolder : isShortPath folder = true) {entries : List (Place × Entry)}
    (hentries : ∀ found ∈ entries, found.1 ≠ []) :
    candidates folder entries = entries.filterMap fun found => candidate? folder found.1 found.2 := by
  rw [candidates]
  refine List.filterMap_congr fun found hfound => ?_
  have hparent : (!found.1.dropLast.isEmpty &&
      !isShortPath (folder.slash (SourcePath.join found.1.dropLast))) =
        !isShortPath (folder.below found.1.dropLast) := by
    rw [Text.below]
    cases found.1.dropLast with
    | nil => rw [if_pos rfl, hfolder]; rfl
    | cons name rest => rfl
  have hpath : folder.slash (SourcePath.join found.1) = folder.below found.1 :=
    (if_neg (hentries found hfound)).symm
  dsimp only
  rw [hparent, hpath, candidate?]
  cases isShortPath (folder.below found.1.dropLast) <;> cases isShortPath (folder.below found.1) <;>
    cases found.2 <;> rfl

/-- A candidate is made of what lies in a folder that can be found, unless it turns out to be one. -/
theorem candidate?_eq_some_iff {folder : Text} {names names' : Place} {entry : Entry}
    {content : Option Content} {front found : Option Entry}
    (hfront : front = if isShortPath (folder.below names.dropLast) then some .folder else none)
    (hfound : found = if isShortPath (folder.below names) then some entry else none) :
    candidate? folder names entry = some (names', content) ↔
      names = names' ∧ front = some .folder ∧ found ≠ some .folder ∧
        content = found.bind Entry.content? := by
  rw [candidate?, hfront, hfound]
  cases isShortPath (folder.below names.dropLast) <;> cases isShortPath (folder.below names) <;>
    cases entry <;> simp [Entry.content?, eq_comm]

/-- A candidate has the names of what it is made of. -/
theorem fst_of_candidate? {folder : Text} {names : Place} {entry : Entry}
    {candidate : Place × Option Content} (h : candidate? folder names entry = some candidate) :
    candidate.1 = names := by
  obtain ⟨names', content⟩ := candidate
  exact ((candidate?_eq_some_iff rfl rfl).1 h).1.symm

namespace FileTree

section Visiting

variable {tree : FileTree} {root names : Place}

/-- What is below a place is sorted by the names that lead there. -/
theorem entriesBelow_eq (tree : FileTree) (root : Place) :
    tree.entriesBelow root =
      sortPlaces (tree.entries.filterMap fun found => (root.behind? found.1).map (·, found.2)) := by
  unfold entriesBelow
  congr 1
  refine List.filterMap_congr fun found _ => ?_
  unfold Place.behind?
  dsimp only
  split <;> rfl

/-- What is below a place is what its names lead to. -/
theorem IsSound.mem_entriesBelow_iff (h : tree.IsSound) {entry : Entry} :
    (names, entry) ∈ tree.entriesBelow root ↔
      names ≠ [] ∧ (∀ name ∈ names, IsEntryName name) ∧ tree.entry? (root ++ names) = some entry := by
  rw [entriesBelow_eq, sortPlaces, (sortBy_perm _ _).mem_iff, List.mem_filterMap]
  constructor
  · rintro ⟨⟨place, e⟩, hmem, hsome⟩
    obtain ⟨found, hfound, heq⟩ := Option.map_eq_some_iff.1 hsome
    cases heq
    obtain ⟨rfl, hne, hup⟩ := Place.behind?_eq_some_iff.1 hfound
    exact ⟨hne, fun name hname => h.named _ hmem name (root.subset_inner_append hup hname),
      h.entry?_of_mem hmem⟩
  · rintro ⟨hne, hnames, hentry⟩
    have hup : names.head? ≠ some SourcePath.up := by
      cases names with
      | nil => exact absurd rfl hne
      | cons name rest => simpa using (hnames name List.mem_cons_self).ne_up
    have hmem := mem_entries_of_entry?_eq (Place.isAtOrAboveRoot_append hne hup) hentry
    refine ⟨_, hmem, ?_⟩
    rw [Place.behind?_eq_some_iff.2 ⟨rfl, hne, hup⟩]
    rfl

/-- What is below a place stands in the order of the names that lead there, each thing once. -/
theorem IsSound.pairwise_entriesBelow (h : tree.IsSound) (root : Place) :
    (tree.entriesBelow root).Pairwise fun a b => a.1.isBefore b.1 = true := by
  have hdistinct : (tree.entriesBelow root).Nodup := by
    rw [entriesBelow_eq, sortPlaces, (sortBy_perm _ _).nodup_iff]
    refine h.distinct.of_map.filterMap fun found found' below hbelow hbelow' => ?_
    obtain ⟨names, hnames, rfl⟩ := Option.map_eq_some_iff.1 hbelow
    obtain ⟨names', hnames', heq⟩ := Option.map_eq_some_iff.1 hbelow'
    obtain ⟨rfl, hentry⟩ := Prod.mk.inj heq
    have hplace := (Place.behind?_eq_some_iff.1 hnames).1
    exact Prod.ext (hplace.trans (Place.behind?_eq_some_iff.1 hnames').1.symm) hentry.symm
  have hsorted : (tree.entriesBelow root).Pairwise fun a b => b.1.isBefore a.1 = false :=
    pairwise_sortPlaces _
  refine (hdistinct.and hsorted).imp_of_mem fun {a b} ha hb ⟨hne, hafter⟩ => ?_
  refine Place.isBefore_of_ne (fun hsame => hne (Prod.ext hsame ?_)) hafter
  -- The same names lead to the same entry.
  have hentry := (h.mem_entriesBelow_iff.1 ha).2.2
  rw [hsame, (h.mem_entriesBelow_iff.1 hb).2.2] at hentry
  exact (Option.some.inj hentry).symm

/-- What a walk through a folder comes upon: something below the folder, in a folder that can be descended
into, that does not turn out to be a folder itself. -/
structure ComesUpon (tree : FileTree) (folder : Text) (names : Place) : Prop where
  ne_nil : names ≠ []
  named : ∀ name ∈ names, IsEntryName name
  listed : ∃ place, tree.locate? folder = some place ∧ (tree.entry? (place ++ names)).isSome = true
  descended : tree.find? (folder.below names.dropLast) = some .folder
  noFolder : tree.find? (folder.below names) ≠ some .folder

/-- The folder that something lies in is found, unless its path is too long. -/
theorem IsSound.find?_below_dropLast (h : tree.IsSound) {folder : Text}
    (hlocate : tree.locate? folder = some root) (hne : names ≠ [])
    (hnames : ∀ name ∈ names, IsEntryName name) {entry : Entry}
    (hentry : tree.entry? (root ++ names) = some entry) :
    tree.find? (folder.below names.dropLast) =
      if isShortPath (folder.below names.dropLast) then some .folder else none := by
  have hup : names.head? ≠ some SourcePath.up := by
    cases names with
    | nil => exact absurd rfl hne
    | cons name rest => simpa using (hnames name List.mem_cons_self).ne_up
  have hwithin := h.within _ (mem_entries_of_entry?_eq (Place.isAtOrAboveRoot_append hne hup) hentry)
  rw [List.dropLast_append_of_ne_nil hne, isFolder, beq_iff_eq] at hwithin
  exact h.find?_below hlocate (fun name hname => hnames name (List.dropLast_subset _ hname)) hwithin

/-- The candidates below a folder are made of what is listed there. -/
theorem IsSound.candidates_entriesBelow (h : tree.IsSound) {folder : Text}
    (hlocate : tree.locate? folder = some root) :
    candidates folder (tree.entriesBelow root) =
      (tree.entriesBelow root).filterMap fun found => candidate? folder found.1 found.2 := by
  have hpath := (isRelativePath_of_locate? hlocate).1
  rw [isRelativePath, Bool.and_eq_true, Bool.and_eq_true] at hpath
  exact candidates_eq hpath.1.2 fun found hfound => (h.mem_entriesBelow_iff.1 hfound).1

/-- Candidates are in the order in which they are listed. -/
theorem IsSound.pairwise_candidates (h : tree.IsSound) {folder : Text}
    (hlocate : tree.locate? folder = some root) :
    (candidates folder (tree.entriesBelow root)).Pairwise fun a b => a.1.isBefore b.1 = true := by
  rw [h.candidates_entriesBelow hlocate, List.pairwise_filterMap]
  refine (h.pairwise_entriesBelow root).imp fun hbefore a ha b hb => ?_
  rwa [fst_of_candidate? ha, fst_of_candidate? hb]

/-- The candidates below a folder are what a walk comes upon, with what can be read there. -/
theorem IsSound.mem_candidates_iff (h : tree.IsSound) {folder : Text}
    (hlocate : tree.locate? folder = some root) {content : Option Content} :
    (names, content) ∈ candidates folder (tree.entriesBelow root) ↔
      tree.ComesUpon folder names ∧ content = (tree.find? (folder.below names)).bind Entry.content? := by
  rw [h.candidates_entriesBelow hlocate, List.mem_filterMap]
  constructor
  · rintro ⟨⟨names', entry⟩, hmem, hsome⟩
    obtain ⟨hne, hnames, hentry⟩ := h.mem_entriesBelow_iff.1 hmem
    obtain ⟨rfl, hdescended, hfolder, hcontent⟩ :=
      (candidate?_eq_some_iff (h.find?_below_dropLast hlocate hne hnames hentry)
        (h.find?_below hlocate hnames hentry)).1 hsome
    exact ⟨⟨hne, hnames, ⟨root, hlocate, by rw [hentry]; rfl⟩, hdescended, hfolder⟩, hcontent⟩
  · rintro ⟨hcomes, hcontent⟩
    obtain ⟨place, hplace, hsome⟩ := hcomes.listed
    obtain rfl : root = place := Option.some.inj (hlocate.symm.trans hplace)
    obtain ⟨entry, hentry⟩ := Option.isSome_iff_exists.1 hsome
    refine ⟨(names, entry), h.mem_entriesBelow_iff.2 ⟨hcomes.ne_nil, hcomes.named, hentry⟩, ?_⟩
    exact (candidate?_eq_some_iff (h.find?_below_dropLast hlocate hcomes.ne_nil hcomes.named hentry)
      (h.find?_below hlocate hcomes.named hentry)).2
        ⟨rfl, hcomes.descended, hcomes.noFolder, hcontent⟩

end Visiting

end FileTree

/-- The names that a generation visits in a source folder, in order: those of all that a walk comes upon
and that has the extension of a source. -/
structure IsWalk (settings : Settings) (source : Text) (tree : FileTree) (visited : List Place) : Prop where
  sorted : visited.Pairwise fun p q => p.isBefore q = true
  mem_iff : ∀ names, names ∈ visited ↔ settings.accepts names = true ∧ tree.ComesUpon source names

/-- The paths and texts of the sources among the visited files: those whose paths are safe. -/
def AreSources (source : Text) (tree : FileTree) (visited : List Place) (sources : List (Text × Text)) :
    Prop :=
  List.Forall₂
    (fun names file => file.1 = SourcePath.join names ∧
      tree.find? (source.below names) = some (.file (.text file.2)) ∧ file.2.size ≤ fileSizeLimit)
    (visited.filter Place.isSafe) sources

/-- The paths that a walk passes over because they are not safe. -/
def rejectedPaths (visited : List Place) : List Text :=
  (visited.filter fun names => !names.isSafe).map SourcePath.join

section Walking

variable {settings : Settings} {source : Text} {tree : FileTree} {visited : List Place}
  {sources : List (Text × Text)}

/-- A walk visits nothing twice. -/
theorem IsWalk.nodup (h : IsWalk settings source tree visited) : visited.Nodup :=
  h.sorted.imp Place.ne_of_isBefore

/-- What is visited has names of its own. -/
theorem IsWalk.comesUpon (h : IsWalk settings source tree visited) {names : Place}
    (hnames : names ∈ visited) : tree.ComesUpon source names :=
  ((h.mem_iff names).1 hnames).2

/-- Different files that are visited have different paths. -/
theorem IsWalk.nodup_join (h : IsWalk settings source tree visited) :
    (visited.map SourcePath.join).Nodup := by
  refine List.Nodup.map_on (fun names hnames names' hnames' heq => ?_) h.nodup
  have hsplit {p : Place} (hp : p ∈ visited) : (SourcePath.join p).splitOn '/' = p :=
    splitOn_join (h.comesUpon hp).ne_nil fun name hname => ((h.comesUpon hp).named name hname).slash_not_mem
  rw [← hsplit hnames, heq, hsplit hnames']

/-- The paths of the sources are those of the visited files that are safe. -/
theorem AreSources.map_fst (h : AreSources source tree visited sources) :
    sources.map Prod.fst = (visited.filter Place.isSafe).map SourcePath.join := by
  have hpaths : List.Forall₂ (fun names (file : Text × Text) => SourcePath.join names = file.1)
      (visited.filter Place.isSafe) sources := h.imp fun _ _ hfile => hfile.1.symm
  have heq := List.forall₂_map_left_iff.2 (List.forall₂_map_right_iff.2 hpaths)
  exact (List.forall₂_eq_eq_eq ▸ heq).symm

/-- A source is the text of a visited file with a safe path. -/
theorem AreSources.exists_visited (h : AreSources source tree visited sources) {file : Text × Text}
    (hfile : file ∈ sources) :
    ∃ names ∈ visited, Place.isSafe names = true ∧ file.1 = SourcePath.join names ∧
      tree.find? (source.below names) = some (.file (.text file.2)) ∧ file.2.size ≤ fileSizeLimit := by
  obtain ⟨i, hi, rfl⟩ := List.mem_iff_getElem.1 hfile
  have hi' : i < (visited.filter Place.isSafe).length := by rwa [h.length_eq]
  obtain ⟨hvisited, hsafe⟩ := List.mem_filter.1 (List.getElem_mem hi')
  exact ⟨_, hvisited, hsafe, h.get hi' hi⟩

/-- Different sources have different paths. -/
theorem IsWalk.nodup_sources (h : IsWalk settings source tree visited)
    (hsources : AreSources source tree visited sources) : (sources.map Prod.fst).Nodup := by
  rw [hsources.map_fst]
  exact h.nodup_join.sublist (List.filter_sublist.map _)

/-- The paths of the sources are made of names. -/
theorem IsWalk.isFilePath (h : IsWalk settings source tree visited)
    (hsources : AreSources source tree visited sources) {file : Text × Text} (hfile : file ∈ sources) :
    IsFilePath file.1 := by
  have hpath : file.1 ∈ sources.map Prod.fst := List.mem_map_of_mem hfile
  rw [hsources.map_fst] at hpath
  obtain ⟨names, hnames, heq⟩ := List.mem_map.1 hpath
  have hcomes := h.comesUpon (List.mem_of_mem_filter hnames)
  exact heq ▸ isFilePath_join hcomes.ne_nil hcomes.named

/-- The paths of the sources are safe. -/
theorem AreSources.violation? (h : AreSources source tree visited sources) {file : Text × Text}
    (hfile : file ∈ sources) : SourcePath.violation? file.1 = none := by
  obtain ⟨names, -, hsafe, hpath, -⟩ := h.exists_visited hfile
  rw [hpath]
  exact Option.isNone_iff_eq_none.1 hsafe

/-- A file can be written under the path of each source. -/
theorem IsWalk.isOutputPath (h : IsWalk settings source tree visited)
    (hsources : AreSources source tree visited sources) {file : Text × Text} (hfile : file ∈ sources) :
    IsOutputPath file.1 :=
  ⟨hsources.violation? hfile, h.isFilePath hsources hfile⟩

/-- The accepted candidates below a folder are visited in a walk. -/
theorem isWalk_candidates (h : tree.IsSound) {root : Place} (hlocate : tree.locate? source = some root) :
    IsWalk settings source tree
      (((candidates source (tree.entriesBelow root)).map Prod.fst).filter settings.accepts) := by
  refine ⟨(List.pairwise_map.2 (h.pairwise_candidates hlocate)).filter _, fun names => ?_⟩
  rw [List.mem_filter, List.mem_map, and_comm]
  refine and_congr_right fun _ => ?_
  constructor
  · rintro ⟨⟨names, content⟩, hcandidate, rfl⟩
    exact ((h.mem_candidates_iff hlocate).1 hcandidate).1
  · intro hcomes
    exact ⟨_, (h.mem_candidates_iff hlocate).2 ⟨hcomes, rfl⟩, rfl⟩

/-- What is read from candidates with safe paths are the sources. -/
theorem areSources_of_readAs {files : List (Place × Option Content)}
    (hfound : ∀ file ∈ files, file.2 = (tree.find? (source.below file.1)).bind Entry.content?)
    (h : List.Forall₂ (Survey.ReadAs source) (files.filter fun file => file.1.isSafe) sources) :
    AreSources source tree (files.map Prod.fst) sources := by
  have hsafe : (files.map Prod.fst).filter Place.isSafe =
      (files.filter fun file => file.1.isSafe).map Prod.fst := List.filter_map
  have hcontents : ∀ file ∈ files.filter fun file => file.1.isSafe,
      file.2 = (tree.find? (source.below file.1)).bind Entry.content? :=
    fun file hfile => hfound file (List.mem_of_mem_filter hfile)
  rw [AreSources, hsafe, List.forall₂_map_left_iff]
  refine ((List.forall₂_and_left _ _).2 ⟨hcontents, h⟩).imp ?_
  rintro ⟨names, content⟩ ⟨path, t⟩ ⟨hcontent, hpath, htext⟩
  obtain ⟨rfl, hsize⟩ := sourceText_eq_ok_iff.1 htext
  obtain ⟨entry, hentry, hheld⟩ := Option.bind_eq_some_iff.1 hcontent.symm
  cases entry with
  | folder => cases hheld
  | file c =>
    cases hheld
    exact ⟨hpath, hentry, hsize⟩

/-- A survey that succeeds is made of the sources and the rejected paths of a walk, and no line of a class
is at fault. -/
theorem exists_walk_of_ofTree (h : tree.IsSound) {survey : Survey}
    (hsurvey : Survey.ofTree settings source tree = .ok survey) :
    ∃ visited sources, IsWalk settings source tree visited ∧ AreSources source tree visited sources ∧
      survey = Survey.plus {} settings (rejectedPaths visited) sources ∧
      survey.intake.registry.validate = .ok () := by
  obtain ⟨found, hfound, hread, hvalid⟩ := Survey.ofFiles_eq_ok_iff.1 hsurvey
  obtain ⟨entries, hentries, rfl⟩ := Option.map_eq_some_iff.1 hfound
  obtain ⟨root, hroot, rfl⟩ := Option.map_eq_some_iff.1 hentries
  have hlocate := (Option.filter_eq_some_iff.1 hroot).1
  obtain ⟨sources, hsources, hplus⟩ := Survey.exists_sources_of_readAll hread
  have hvisited : ((candidates source (tree.entriesBelow root)).map Prod.fst).filter settings.accepts =
      ((candidates source (tree.entriesBelow root)).filter fun file => settings.accepts file.1).map
        Prod.fst := List.filter_map
  refine ⟨_, sources, isWalk_candidates h hlocate, ?_, ?_, hvalid⟩
  · rw [hvisited]
    refine areSources_of_readAs (fun file hfile => ?_) hsources
    exact ((h.mem_candidates_iff hlocate).1 (List.mem_of_mem_filter hfile)).2
  · rw [hplus, hvisited, rejectedPaths, List.filter_map, List.map_map]
    rfl

end Walking

end ClassFlattening
