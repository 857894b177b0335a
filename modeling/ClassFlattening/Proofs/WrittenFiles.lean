import ClassFlattening.Proofs.FileTrees
import ClassFlattening.Proofs.SurveyedFiles

/-!
# What writing changes

Folders are only made where nothing is, and a file is only put where no folder is. So whatever a
generation writes, all folders stay, and the only files that change are those at the places where a text
is put: each of them holds its text, and each other file holds what it held. Writing stops in front of
the first text that there is not, or that the file system refuses, and what was written before stays.
-/

namespace ClassFlattening

/-- A path that is made of names. -/
def IsFilePath (path : Text) : Prop := ∀ name ∈ path.splitOn '/', IsEntryName name

/-- Joined names are a path made of names. -/
theorem isFilePath_join {names : Place} (hne : names ≠ []) (hnames : ∀ name ∈ names, IsEntryName name) :
    IsFilePath (SourcePath.join names) := by
  rwa [IsFilePath, splitOn_join hne fun name hname => (hnames name hname).slash_not_mem]

/-- A path under which a file can be written below a folder: it is safe, and made of names. -/
structure IsOutputPath (path : Text) : Prop where
  safe : SourcePath.violation? path = none
  named : IsFilePath path

/-- The path of a file in a folder goes through its names. -/
theorem below_splitOn (folder path : Text) : folder.below (path.splitOn '/') = folder.slash path := by
  rw [Text.below, if_neg (Text.splitOn_ne_nil path '/'), join_splitOn]

namespace FileTree

/-- A sound tree that differs from another one by more folders and by the files at some places, which hold
the texts that were written there. -/
structure Writes (written : List (Place × Text)) (tree tree' : FileTree) : Prop where
  sound : tree'.IsSound
  folders : ∀ q, tree.isFolder q = true → tree'.isFolder q = true
  holds : ∀ file ∈ written, tree'.fileAt? file.1 = some (.text file.2)
  keeps : ∀ q, q ∉ written.map Prod.fst → tree'.fileAt? q = tree.fileAt? q

namespace Writes

variable {tree tree₁ tree₂ : FileTree} {place : Place} {name : Text}

/-- Nothing is written. -/
theorem refl (h : tree.IsSound) : Writes [] tree tree where
  sound := h
  folders := fun _ hq => hq
  holds := fun _ hfile => absurd hfile List.not_mem_nil
  keeps := fun _ _ => rfl

/-- What is written first stays if nothing else is written to the same places. -/
theorem trans {written written' : List (Place × Text)} (h : Writes written tree tree₁)
    (h' : Writes written' tree₁ tree₂) (hdisjoint : (written.map Prod.fst).Disjoint (written'.map Prod.fst)) :
    Writes (written ++ written') tree tree₂ where
  sound := h'.sound
  folders := fun q hq => h'.folders q (h.folders q hq)
  holds := by
    intro file hfile
    rcases List.mem_append.1 hfile with hfile | hfile
    · rw [h'.keeps _ (hdisjoint (List.mem_map_of_mem hfile)), h.holds file hfile]
    · exact h'.holds file hfile
  keeps := by
    intro q hq
    rw [List.map_append, List.mem_append, not_or] at hq
    rw [h'.keeps q hq.2, h.keeps q hq.1]

/-- A folder that is made in a folder changes no file. -/
theorem putFolder (h : tree.IsSound) (hplace : tree.isFolder place = true) (hname : IsEntryName name)
    (hnew : tree.entry? (place ++ [name]) = none) :
    Writes [] tree (tree.put (place ++ [name]) .folder) := by
  have hbelow := place.isAtOrAboveRoot_concat hname.ne_up
  have hold : tree.isFolder (place ++ [name]) = false := by
    rw [isFolder, hnew]
    rfl
  refine ⟨h.put hplace hname hold _, fun q hq => isFolder_put _ tree hbelow hold hq, by simp, fun q _ => ?_⟩
  rw [fileAt?_put _ tree hbelow]
  split
  · next hq =>
    rw [hq, fileAt?, hnew]
    rfl
  · rfl

/-- A file that is put into a folder holds its text, and no other file changes. -/
theorem putFile (h : tree.IsSound) (hplace : tree.isFolder place = true) (hname : IsEntryName name)
    (hold : tree.isFolder (place ++ [name]) = false) (t : Text) :
    Writes [(place ++ [name], t)] tree (tree.put (place ++ [name]) (.file (.text t))) := by
  have hbelow := place.isAtOrAboveRoot_concat hname.ne_up
  refine ⟨h.put hplace hname hold _, fun q hq => isFolder_put _ tree hbelow hold hq, ?_, ?_⟩
  · intro file hfile
    obtain rfl := List.mem_singleton.1 hfile
    rw [fileAt?_put _ tree hbelow, if_pos rfl]
    rfl
  · intro q hq
    rw [fileAt?_put _ tree hbelow, if_neg (by simpa using hq)]

end Writes

/-- Making folders stops at a name, or goes on from the folder that the name leads to in a tree where it
may just have been made. -/
theorem makeFoldersFrom_step {tree : FileTree} (h : tree.IsSound) {place : Place}
    (hplace : tree.isFolder place = true) {name : Text} (hslash : '/' ∉ name)
    (hnul : ∀ c ∈ name, c.toNat ≠ 0) (rest : List Text) :
    tree.makeFoldersFrom place (name :: rest) = (tree, none) ∨
      ∃ tree₁ place₁, Writes [] tree tree₁ ∧ tree₁.isFolder place₁ = true ∧
        tree.makeFoldersFrom place (name :: rest) = tree₁.makeFoldersFrom place₁ rest ∧
        ∀ tree₂ : FileTree, tree₂.isFolder place = true →
          tree₂.follow place (name :: rest) = tree₂.follow place₁ rest := by
  by_cases hdot : name = [] ∨ name = SourcePath.here
  · refine Or.inr ⟨tree, place, .refl h, hplace, ?_, fun tree₂ hfolder => ?_⟩
    · rw [makeFoldersFrom, if_pos hdot]
    · rw [follow, if_pos hfolder, if_pos hdot]
  by_cases hup : name = SourcePath.up
  · refine Or.inr ⟨tree, place.above, .refl h, h.isFolder_above hplace, ?_, fun tree₂ hfolder => ?_⟩
    · rw [makeFoldersFrom, if_neg hdot, if_pos hup]
    · rw [follow, if_pos hfolder, if_neg hdot, if_pos hup]
  have hname : IsEntryName name := ⟨(not_or.1 hdot).1, (not_or.1 hdot).2, hup, hslash, hnul⟩
  have hfollow (tree₂ : FileTree) (hfolder : tree₂.isFolder place = true) :
      tree₂.follow place (name :: rest) = tree₂.follow (place ++ [name]) rest := by
    rw [follow, if_pos hfolder, if_neg hdot, if_neg hup]
  rw [makeFoldersFrom, if_neg hdot, if_neg hup]
  cases hentry : tree.entry? (place ++ [name]) with
  | none =>
    dsimp only
    split
    · exact Or.inl rfl
    · have hput : (tree.put (place ++ [name]) .folder).isFolder (place ++ [name]) = true := by
        rw [isFolder, entry?_put _ tree (place.isAtOrAboveRoot_concat hup), if_pos rfl]
        rfl
      exact Or.inr ⟨_, _, .putFolder h hplace hname hentry, hput, rfl, hfollow⟩
  | some entry =>
    cases entry with
    | folder => exact Or.inr ⟨tree, _, .refl h, beq_iff_eq.2 hentry, rfl, hfollow⟩
    | file content => exact Or.inl rfl

/-- Making folders changes no file, and where it succeeds the names lead to the last folder. The induction
is on the names; each step goes on from another folder of a tree that has no fewer folders. -/
theorem makeFoldersFrom_outcome {tree : FileTree} (h : tree.IsSound) {place : Place}
    (hplace : tree.isFolder place = true) {names : List Text}
    (hnames : ∀ name ∈ names, '/' ∉ name ∧ ∀ c ∈ name, c.toNat ≠ 0) :
    Writes [] tree (tree.makeFoldersFrom place names).1 ∧
      ∀ q, (tree.makeFoldersFrom place names).2 = some q →
        (tree.makeFoldersFrom place names).1.isFolder q = true ∧
          (tree.makeFoldersFrom place names).1.follow place names = some q := by
  induction names generalizing tree place with
  | nil =>
    refine ⟨.refl h, fun q hq => ?_⟩
    cases hq
    exact ⟨hplace, rfl⟩
  | cons name rest ih =>
    obtain ⟨⟨hslash, hnul⟩, hrest⟩ := List.forall_mem_cons.1 hnames
    rcases makeFoldersFrom_step h hplace hslash hnul rest with hstops |
      ⟨tree₁, place₁, hwrites, hplace₁, hmade, hfollow⟩
    · rw [hstops]
      exact ⟨.refl h, fun q hq => by cases hq⟩
    · obtain ⟨hmore, hlast⟩ := ih hwrites.sound hplace₁ hrest
      have hall := hwrites.trans hmore (List.disjoint_nil_left _)
      rw [hmade]
      refine ⟨hall, fun q hq => ⟨(hlast q hq).1, ?_⟩⟩
      rw [hfollow _ (hall.folders _ hplace)]
      exact (hlast q hq).2

/-- Making the folders of a path changes no file, and where it succeeds the path leads to the last one. -/
theorem makeFolders_outcome {tree : FileTree} (h : tree.IsSound) (path : Text) :
    Writes [] tree (tree.makeFolders path).1 ∧
      ∀ q, (tree.makeFolders path).2 = some q →
        isRelativePath path = true ∧ (tree.makeFolders path).1.isFolder q = true ∧
          (tree.makeFolders path).1.follow [] (path.splitOn '/') = some q := by
  unfold makeFolders
  split
  · next hpath =>
    have hnul : ∀ c ∈ path, c.toNat ≠ 0 := by
      rw [isRelativePath, Bool.and_eq_true, Bool.not_eq_true', List.any_eq_false] at hpath
      exact fun c hc => by simpa using hpath.2 c hc
    have hnames : ∀ name ∈ path.splitOn '/', '/' ∉ name ∧ ∀ c ∈ name, c.toNat ≠ 0 := by
      intro name hname
      have hmem := Text.mem_of_mem_splitOn hname
      exact ⟨fun hslash => (hmem _ hslash).2 rfl, fun c hc => hnul c (hmem c hc).1⟩
    obtain ⟨hwrites, hlast⟩ := makeFoldersFrom_outcome h tree.isFolder_root hnames
    exact ⟨hwrites, fun q hq => ⟨hpath, hlast q hq⟩⟩
  · exact ⟨.refl h, fun q hq => by cases hq⟩

end FileTree

section Writing

open FileTree

/-- A path is turned down as unsafe if it is. -/
theorem writeBelow_unsafePath_iff (tree : FileTree) (output : Text) (place : Place) (path t : Text)
    {turnedDown : Text} :
    (writeBelow tree output place path t).2 = some (.unsafePath turnedDown) ↔
      path = turnedDown ∧ (SourcePath.violation? path).isSome = true := by
  unfold writeBelow
  split
  · next hviolation => simp [hviolation]
  · next hsafe =>
    dsimp only
    generalize (if isRelativePath _ then _ else (tree, none)) = made
    obtain ⟨tree₁, _ | last⟩ := made
    · simp [hsafe]
    · dsimp only
      cases tree₁.write? (output.slash path) (place ++ path.splitOn '/') (.text t) <;> simp [hsafe]

/-- A file with a safe path is written into the last of the folders on its path, which are made first. -/
theorem writeBelow_eq (tree : FileTree) (output : Text) (place : Place) {path : Text} (t : Text)
    {front : Place} {last : Text} (hsafe : SourcePath.violation? path = none)
    (hsplit : path.splitOn '/' = front ++ [last]) :
    writeBelow tree output place path t =
      match if isRelativePath (output.below front) then tree.makeFoldersFrom place front
        else (tree, none) with
      | (tree, none) => (tree, some (.refused (output.below front)))
      | (tree, some _) =>
        match tree.write? (output.slash path) (place ++ (front ++ [last])) (.text t) with
        | none => (tree, some (.refused (output.slash path)))
        | some tree => (tree, none) := by
  have hparent : (if front.isEmpty then output else output.slash (SourcePath.join front)) =
      output.below front := by
    rw [Text.below]
    cases front <;> rfl
  unfold writeBelow
  dsimp only
  rewrite [hsafe, hsplit, List.dropLast_concat, hparent]
  rfl

/-- A file is written below a folder, or the file system refuses its path or that of a folder on the way,
and then no file changes. -/
theorem writeBelow_outcome {tree : FileTree} (h : tree.IsSound) (output : Text) {place : Place}
    (hplace : tree.isFolder place = true) {path : Text} (hpath : IsOutputPath path) (t : Text) :
    ((writeBelow tree output place path t).2 = none ∧ isRelativePath (output.slash path) = true ∧
        Writes [(place ++ path.splitOn '/', t)] tree (writeBelow tree output place path t).1) ∨
      ∃ names, names <+: path.splitOn '/' ∧
        (writeBelow tree output place path t).2 = some (.refused (output.below names)) ∧
        Writes [] tree (writeBelow tree output place path t).1 := by
  have hslash := below_splitOn output path
  obtain ⟨front, last, hsplit⟩ :=
    (List.eq_nil_or_concat' (path.splitOn '/')).resolve_left (Text.splitOn_ne_nil path '/')
  rw [writeBelow_eq tree output place t hpath.safe hsplit]
  have hnamed := hpath.named
  unfold IsFilePath at hnamed
  rw [hsplit] at hnamed hslash ⊢
  have hlead : front <+: front ++ [last] := List.prefix_append front [last]
  obtain ⟨hfront, hlast⟩ := List.forall_mem_append.1 hnamed
  have hlast := hlast last (List.mem_singleton_self last)
  by_cases hrelative : isRelativePath (output.below front) = true
  · rw [if_pos hrelative]
    obtain ⟨hwrites, hmade⟩ := makeFoldersFrom_outcome h hplace fun name hname =>
      ⟨(hfront name hname).slash_not_mem, (hfront name hname).nul_not_mem⟩
    rcases hfolders : tree.makeFoldersFrom place front with ⟨tree₁, _ | q⟩
    · rw [hfolders] at hwrites
      exact Or.inr ⟨front, hlead, rfl, hwrites⟩
    · rw [hfolders] at hwrites hmade
      obtain ⟨hq, hfollow⟩ := hmade q rfl
      obtain rfl := eq_append_of_follow hfront hfollow
      dsimp only
      rw [write?]
      split
      · next hrefused =>
        split at hrefused
        · exact Or.inr ⟨front ++ [last], List.prefix_rfl, by rw [hslash], hwrites⟩
        · cases hrefused
      · next tree₂ hwritten =>
        split at hwritten
        · cases hwritten
        · next hfree =>
          cases hwritten
          rw [Bool.or_eq_true, Bool.or_eq_true, not_or, not_or, Bool.not_eq_true, Bool.not_eq_true',
            Bool.not_eq_false] at hfree
          rw [← List.append_assoc] at hfree ⊢
          exact Or.inl ⟨rfl, hfree.2, hwrites.trans (.putFile hwrites.sound hq hlast hfree.1.1 t)
            (List.disjoint_nil_left _)⟩
  · rw [if_neg hrelative]
    exact Or.inr ⟨front, hlead, rfl, .refl h⟩

/-- Why writing stops in front of what is pending: the output folder is refused, the first text pending
is not there, or the file system refuses its path or that of a folder on the way. -/
inductive StopsAt (output : Text) : List (Text × Except Fault Text) → Fault → Prop
  | unmade (pending : List (Text × Except Fault Text)) : StopsAt output pending (.refused output)
  | unrendered (path : Text) (fault : Fault) (rest : List (Text × Except Fault Text)) :
      StopsAt output ((path, .error fault) :: rest) fault
  | unwritten (path t : Text) (rest : List (Text × Except Fault Text)) {names : Place}
      (h : names <+: path.splitOn '/') : StopsAt output ((path, .ok t) :: rest) (.refused (output.below names))

/-- Writing writes all texts, or those in front of the one at which it stops, and changes nothing else. -/
theorem writeAll_outcome {tree : FileTree} (h : tree.IsSound) (output : Text) {place : Place}
    (hplace : tree.isFolder place = true) {emissions : List (Text × Except Fault Text)}
    (hpaths : ∀ emission ∈ emissions, IsOutputPath emission.1) (hdistinct : (emissions.map Prod.fst).Nodup) :
    ∃ (written : List (Text × Text)) (pending : List (Text × Except Fault Text)),
      emissions = written.map (fun file => (file.1, .ok file.2)) ++ pending ∧
      (∀ file ∈ written, isRelativePath (output.slash file.1) = true) ∧
      Writes (written.map fun file => (place ++ file.1.splitOn '/', file.2)) tree
        (writeAll output place tree emissions).1 ∧
      ((writeAll output place tree emissions).2 = none ∧ pending = [] ∨
        ∃ fault, (writeAll output place tree emissions).2 = some fault ∧ pending ≠ [] ∧
          StopsAt output pending fault) := by
  induction emissions generalizing tree with
  | nil => exact ⟨[], [], rfl, by simp, .refl h, Or.inl ⟨rfl, rfl⟩⟩
  | cons emission rest ih =>
    obtain ⟨path, outcome⟩ := emission
    obtain ⟨hpath, hrest⟩ := List.forall_mem_cons.1 hpaths
    rw [List.map_cons, List.nodup_cons] at hdistinct
    cases outcome with
    | error fault =>
      exact ⟨[], _, rfl, by simp, .refl h,
        Or.inr ⟨fault, rfl, List.cons_ne_nil _ _, .unrendered path fault rest⟩⟩
    | ok t =>
      rw [writeAll]
      rcases writeBelow_outcome h output hplace hpath t with ⟨hnone, hshort, hfirst⟩ |
        ⟨names, hnames, hsome, hfirst⟩
      · rcases hwrite : writeBelow tree output place path t with ⟨tree₁, fault?⟩
        rw [hwrite] at hnone hfirst
        cases hnone
        obtain ⟨written, pending, hemissions, hrelative, hwrites, hstop⟩ :=
          ih hfirst.sound (hfirst.folders _ hplace) hrest hdistinct.2
        refine ⟨(path, t) :: written, pending, ?_, ?_, ?_, hstop⟩
        · rw [List.map_cons, List.cons_append, ← hemissions]
        · exact List.forall_mem_cons.2 ⟨hshort, hrelative⟩
        · refine hfirst.trans hwrites ?_
          rw [List.map_singleton, List.map_map, List.singleton_disjoint]
          intro hmem
          obtain ⟨file, hfile, hsame⟩ := List.mem_map.1 hmem
          have heq : file.1 = path := splitOn_injective (List.append_cancel_left hsame)
          apply hdistinct.1
          rw [hemissions, List.map_append, List.map_map]
          exact List.mem_append_left _ (List.mem_map.2 ⟨file, hfile, heq⟩)
      · rcases hwrite : writeBelow tree output place path t with ⟨tree₁, fault?⟩
        rw [hwrite] at hsome hfirst
        cases hsome
        exact ⟨[], _, rfl, by simp, hfirst,
          Or.inr ⟨_, rfl, List.cons_ne_nil _ _, .unwritten path t rest hnames⟩⟩

/-- A tree in which texts are written to paths below an output folder: each of these paths leads to a file
with its text, and every file that none of them leads to is as it was in the tree before. No folder is
lost. -/
structure FileTree.Overwritten (output : Text) (written : List (Text × Text)) (tree tree' : FileTree) :
    Prop where
  sound : tree'.IsSound
  folders : ∀ place, tree.isFolder place = true → tree'.isFolder place = true
  holds : ∀ file ∈ written, tree'.find? (output.slash file.1) = some (.file (.text file.2))
  keeps : ∀ place, (∀ file ∈ written, tree'.locate? (output.slash file.1) ≠ some place) →
    tree'.fileAt? place = tree.fileAt? place

/-- What is written to places below a folder is found under the folder's path. -/
theorem FileTree.Writes.overwritten {tree tree' : FileTree} {output : Text} {place : Place}
    {written : List (Text × Text)}
    (h : Writes (written.map fun file => (place ++ file.1.splitOn '/', file.2)) tree tree')
    (hpaths : ∀ file ∈ written, IsFilePath file.1)
    (hrelative : ∀ file ∈ written, isRelativePath (output.slash file.1) = true)
    (houtput : isRelativePath output = true) (hfollow : tree'.follow [] (output.splitOn '/') = some place) :
    Overwritten output written tree tree' := by
  have hfound : ∀ file ∈ written, tree'.locate? (output.slash file.1) = some (place ++ file.1.splitOn '/') ∧
      tree'.entry? (place ++ file.1.splitOn '/') = some (.file (.text file.2)) := by
    intro file hfile
    have hheld := h.holds _ (List.mem_map.2 ⟨file, hfile, rfl⟩)
    obtain ⟨entry, hentry, hcontent⟩ := Option.bind_eq_some_iff.1 hheld
    cases entry with
    | folder => cases hcontent
    | file content =>
      cases hcontent
      have hbelow := below_splitOn output file.1
      have hshort : isShortPath (output.below (file.1.splitOn '/')) = true := by
        rw [← isRelativePath_below houtput (hpaths file hfile), hbelow]
        exact hrelative file hfile
      have hlocate := locate?_below houtput hfollow (Text.splitOn_ne_nil file.1 '/') (hpaths file hfile)
      rw [if_pos hshort, h.sound.follow_eq_append (hpaths file hfile) hentry, hbelow] at hlocate
      exact ⟨hlocate, hentry⟩
  refine ⟨h.sound, h.folders, fun file hfile => ?_, fun q hq => h.keeps q ?_⟩
  · rw [find?, (hfound file hfile).1, Option.bind_some, (hfound file hfile).2]
  · intro hmem
    rw [List.map_map] at hmem
    obtain ⟨file, hfile, rfl⟩ := List.mem_map.1 hmem
    exact hq file hfile (hfound file hfile).1

/-- Writing what a survey found overwrites all files that it emits, or those in front of the one at which
it stops. -/
theorem Survey.emit_outcome (survey : Survey) (settings : Settings) (output : Text) {tree : FileTree}
    (h : tree.IsSound) (hpaths : ∀ emission ∈ survey.emissions settings, IsOutputPath emission.1)
    (hdistinct : ((survey.emissions settings).map Prod.fst).Nodup) :
    ∃ (written : List (Text × Text)) (pending : List (Text × Except Fault Text)),
      survey.emissions settings = written.map (fun file => (file.1, .ok file.2)) ++ pending ∧
      FileTree.Overwritten output written tree (survey.emit settings output tree).1 ∧
      ((survey.emit settings output tree).2 = .ok survey.summary ∧ pending = [] ∨
        ∃ fault, (survey.emit settings output tree).2 = .error fault ∧ StopsAt output pending fault ∧
          (pending = [] → written = [])) := by
  obtain ⟨hmade, hlast⟩ := makeFolders_outcome h output
  unfold emit
  rcases hfolders : tree.makeFolders output with ⟨tree₁, _ | place⟩
  · rw [hfolders] at hmade
    exact ⟨[], _, rfl, ⟨hmade.sound, hmade.folders, by simp, fun q _ => hmade.keeps q (by simp)⟩,
      Or.inr ⟨_, rfl, .unmade _, fun _ => rfl⟩⟩
  · rw [hfolders] at hmade hlast
    obtain ⟨houtput, hplace, hfollow⟩ := hlast place rfl
    obtain ⟨written, pending, hemissions, hrelative, hwrites, hstop⟩ :=
      writeAll_outcome hmade.sound output hplace hpaths hdistinct
    have hwritten : ∀ file ∈ written, IsFilePath file.1 := by
      intro file hfile
      refine (hpaths (file.1, .ok file.2) ?_).named
      rw [hemissions]
      exact List.mem_append_left _ (List.mem_map.2 ⟨file, hfile, rfl⟩)
    have hover := (hmade.trans hwrites (List.disjoint_nil_left _)).overwritten hwritten hrelative houtput
      (follow_of_folders hwrites.folders hfollow)
    dsimp only
    rcases hall : writeAll output place tree₁ (survey.emissions settings) with ⟨tree₂, _ | fault⟩
    · rw [hall] at hstop hover
      refine ⟨written, pending, hemissions, hover, Or.inl ⟨rfl, ?_⟩⟩
      exact (hstop.resolve_right fun ⟨_, hsome, _⟩ => by cases hsome).2
    · rw [hall] at hstop hover
      obtain ⟨other, hsome, hpending, hstop⟩ := hstop.resolve_left fun ⟨hnone, _⟩ => by cases hnone
      cases hsome
      exact ⟨written, pending, hemissions, hover,
        Or.inr ⟨fault, rfl, hstop, fun hnil => absurd hnil hpending⟩⟩

end Writing

end ClassFlattening
