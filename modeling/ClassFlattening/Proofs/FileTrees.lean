import ClassFlattening.FileTree
import ClassFlattening.Proofs.RelativePaths
import Mathlib.Data.List.Induction
import Mathlib.Data.List.Nodup

/-!
# Sound trees of files

A list of places and entries is a tree of files only if each place stands in it once, under names that an
entry can have, and in a folder. `FileTree.IsSound` says so, and putting an entry into a folder keeps it.
In a sound tree the names that lead to an entry can be followed from any folder on the way, so a path that
is made of a folder's path and of names leads to the entry of these names below the folder, unless it is
too long to be followed.
-/

namespace ClassFlattening

namespace Text

/-- There is always a first piece. -/
theorem splitOn_ne_nil (t : Text) (separator : Char) : t.splitOn separator ≠ [] := by
  cases t with
  | nil => exact List.cons_ne_nil _ _
  | cons c rest =>
    rw [splitOn]
    split
    · exact List.cons_ne_nil _ _
    · split <;> exact List.cons_ne_nil _ _

/-- A separator parts the pieces on its left from those on its right. -/
theorem splitOn_append_cons (t u : Text) (separator : Char) :
    splitOn (t ++ separator :: u) separator = splitOn t separator ++ splitOn u separator := by
  induction t with
  | nil => rw [List.nil_append, splitOn, splitOn, if_pos rfl, List.singleton_append]
  | cons c t ih =>
    rw [List.cons_append, splitOn, splitOn, ih]
    split
    · rfl
    · obtain ⟨piece, pieces, hpieces⟩ := List.exists_cons_of_ne_nil (splitOn_ne_nil t separator)
      rw [hpieces]
      rfl

/-- The pieces of a text are made of its characters, without the separator. -/
theorem mem_of_mem_splitOn {t piece : Text} {separator : Char} (h : piece ∈ t.splitOn separator) :
    ∀ c ∈ piece, c ∈ t ∧ c ≠ separator := by
  induction t generalizing piece with
  | nil =>
    obtain rfl := List.mem_singleton.1 h
    simp
  | cons c t ih =>
    change piece ∈ splitOn (c :: t) separator at h
    rw [splitOn] at h
    split at h
    · rcases List.mem_cons.1 h with rfl | hrest
      · simp
      · exact fun d hd => ⟨List.mem_cons_of_mem _ (ih hrest d hd).1, (ih hrest d hd).2⟩
    · next hne =>
      obtain ⟨first, pieces, hpieces⟩ := List.exists_cons_of_ne_nil (splitOn_ne_nil t separator)
      change splitOn t separator = _ at hpieces
      rw [hpieces] at h
      have hold {p : Text} (hp : p ∈ first :: pieces) : ∀ d ∈ p, d ∈ t ∧ d ≠ separator :=
        ih (show p ∈ splitOn t separator from hpieces ▸ hp)
      rcases List.mem_cons.1 h with rfl | hrest
      · intro d hd
        rcases List.mem_cons.1 hd with rfl | hd
        · exact ⟨List.mem_cons_self, hne⟩
        · have := hold List.mem_cons_self d hd
          exact ⟨List.mem_cons_of_mem _ this.1, this.2⟩
      · intro d hd
        have := hold (List.mem_cons_of_mem _ hrest) d hd
        exact ⟨List.mem_cons_of_mem _ this.1, this.2⟩

end Text

/-- Joined names are split into the names again. -/
theorem splitOn_join {names : List Text} (hne : names ≠ []) (h : ∀ name ∈ names, '/' ∉ name) :
    (SourcePath.join names).splitOn '/' = names := by
  induction names with
  | nil => exact absurd rfl hne
  | cons name rest ih =>
    obtain ⟨hname, hrest⟩ := List.forall_mem_cons.1 h
    cases rest with
    | nil =>
      have hjoin : SourcePath.join [name] = name := by simp [SourcePath.join, List.intercalate]
      rw [hjoin]
      exact Text.splitOn_of_not_mem hname
    | cons next rest =>
      have hjoin : SourcePath.join (name :: next :: rest) =
          name ++ '/' :: SourcePath.join (next :: rest) := by
        simp [SourcePath.join, List.intercalate]
      rw [hjoin]
      refine (Text.splitOn_append hname _).trans ?_
      rw [ih (List.cons_ne_nil _ _) hrest]

/-- The pieces of a path are joined to the path again. -/
theorem join_splitOn (path : Text) : SourcePath.join (path.splitOn '/') = path := by
  induction path with
  | nil => rfl
  | cons c rest ih =>
    obtain ⟨piece, pieces, hpieces⟩ := List.exists_cons_of_ne_nil (Text.splitOn_ne_nil rest '/')
    have hrest : SourcePath.join (Text.splitOn rest '/') = rest := ih
    change SourcePath.join (Text.splitOn (c :: rest) '/') = c :: rest
    rw [Text.splitOn]
    split
    · next hc =>
      have hjoin : SourcePath.join ([] :: Text.splitOn rest '/') =
          '/' :: SourcePath.join (Text.splitOn rest '/') := by
        rw [hpieces]
        simp [SourcePath.join, List.intercalate]
      rw [hjoin, hrest, hc]
    · rw [hpieces]
      have hjoin : SourcePath.join ((c :: piece) :: pieces) = c :: SourcePath.join (piece :: pieces) := by
        cases pieces <;> simp [SourcePath.join, List.intercalate]
      rw [hpieces] at hrest
      exact hjoin.trans (congrArg (c :: ·) hrest)

/-- Different paths have different pieces. -/
theorem splitOn_injective : Function.Injective fun path : Text => path.splitOn '/' := by
  intro path path' heq
  have hjoin := congrArg SourcePath.join heq
  rwa [join_splitOn, join_splitOn] at hjoin

/-- A name that something in a folder can have. -/
structure IsEntryName (name : Text) : Prop where
  ne_nil : name ≠ []
  ne_here : name ≠ SourcePath.here
  ne_up : name ≠ SourcePath.up
  slash_not_mem : '/' ∉ name
  nul_not_mem : ∀ c ∈ name, c.toNat ≠ 0

instance decidableIsEntryName (name : Text) : Decidable (IsEntryName name) :=
  decidable_of_iff (name ≠ [] ∧ name ≠ SourcePath.here ∧ name ≠ SourcePath.up ∧ '/' ∉ name ∧
      name.all (fun c => c.toNat ≠ 0) = true)
    ⟨fun ⟨hnil, hhere, hup, hslash, hnul⟩ =>
        ⟨hnil, hhere, hup, hslash, fun c hc => of_decide_eq_true (List.all_eq_true.1 hnul c hc)⟩,
      fun h => ⟨h.ne_nil, h.ne_here, h.ne_up, h.slash_not_mem,
        List.all_eq_true.2 fun c hc => decide_eq_true (h.nul_not_mem c hc)⟩⟩

/-- The names of a place behind those that lead out of the tree. -/
def Place.inner (place : Place) : Place := place.dropWhile fun name => name == SourcePath.up

namespace Place

/-- A place is at or above the root exactly if it has no names of its own. -/
theorem inner_eq_nil_iff {place : Place} : place.inner = [] ↔ place.isAtOrAboveRoot = true := by
  rw [inner, List.dropWhile_eq_nil_iff, isAtOrAboveRoot, List.all_eq_true]

/-- Names behind a place that do not start by leading out of the tree are its own. -/
theorem subset_inner_append (place : Place) {names : Place} (h : names.head? ≠ some SourcePath.up) :
    names ⊆ (place ++ names).inner := by
  rw [inner, List.dropWhile_append]
  split
  · cases names with
    | nil => exact List.nil_subset _
    | cons name rest =>
      rw [List.dropWhile_cons_of_neg (by simpa using h)]
      exact List.Subset.refl _
  · exact List.subset_append_right _ _

/-- A name behind a place is one of its own. -/
theorem inner_concat (place : Place) {name : Text} (h : name ≠ SourcePath.up) :
    (place ++ [name]).inner = place.inner ++ [name] := by
  rw [inner, List.dropWhile_append]
  split
  · next hnone =>
    rw [List.isEmpty_iff] at hnone
    rw [inner, hnone, List.dropWhile_cons_of_neg (by simpa using h), List.nil_append]
  · rfl

/-- Names that do not start by leading out of the tree lead below the root. -/
theorem isAtOrAboveRoot_append {place names : Place} (hne : names ≠ [])
    (hup : names.head? ≠ some SourcePath.up) : (place ++ names).isAtOrAboveRoot = false := by
  rw [← Bool.not_eq_true, ← inner_eq_nil_iff]
  intro hnil
  have hsub := place.subset_inner_append hup
  rw [hnil] at hsub
  exact hne (List.subset_nil.1 hsub)

/-- A place behind whose end a name stands is below the root. -/
theorem isAtOrAboveRoot_concat (place : Place) {name : Text} (h : name ≠ SourcePath.up) :
    (place ++ [name]).isAtOrAboveRoot = false :=
  isAtOrAboveRoot_append (List.cons_ne_nil _ _) (by simpa using h)

end Place

/-- What an entry holds if it is a file. -/
def Entry.content? : Entry → Option Content
  | folder => none
  | file content => some content

namespace FileTree

/-- What the file at a place holds, if there is one. -/
def fileAt? (tree : FileTree) (place : Place) : Option Content :=
  (tree.entry? place).bind Entry.content?

/-- A list of places and entries that is a tree of files: each place stands in it once, with names of its
own that an entry can have, and lies in a folder. -/
structure IsSound (tree : FileTree) : Prop where
  distinct : (tree.entries.map Prod.fst).Nodup
  below : ∀ entry ∈ tree.entries, entry.1.inner ≠ []
  named : ∀ entry ∈ tree.entries, ∀ name ∈ entry.1.inner, IsEntryName name
  within : ∀ entry ∈ tree.entries, tree.isFolder entry.1.dropLast = true

instance decidableIsSound (tree : FileTree) : Decidable tree.IsSound :=
  decidable_of_iff ((tree.entries.map Prod.fst).Nodup ∧ (∀ entry ∈ tree.entries, entry.1.inner ≠ []) ∧
      (∀ entry ∈ tree.entries, ∀ name ∈ entry.1.inner, IsEntryName name) ∧
      ∀ entry ∈ tree.entries, tree.isFolder entry.1.dropLast = true)
    ⟨fun ⟨hdistinct, hbelow, hnamed, hwithin⟩ => ⟨hdistinct, hbelow, hnamed, hwithin⟩,
      fun h => ⟨h.distinct, h.below, h.named, h.within⟩⟩

/-- An empty list is a tree without files. -/
theorem isSound_empty : ({} : FileTree).IsSound := by decide

section Putting

variable (place : Place) (entry : Entry)

/-- Putting an entry changes what is found at its place and nowhere else. -/
theorem find?_putEntry (entries : List (Place × Entry)) (q : Place) :
    ((putEntry place entry entries).find? fun e => e.1 == q).map Prod.snd =
      if q = place then some entry else (entries.find? fun e => e.1 == q).map Prod.snd := by
  induction entries with
  | nil =>
    by_cases hq : q = place
    · simp [putEntry, hq]
    · simp [putEntry, hq, Ne.symm hq]
  | cons first rest ih =>
    obtain ⟨p, e⟩ := first
    rw [putEntry]
    by_cases hp : p = place
    · by_cases hq : q = place
      · simp [hp, hq]
      · have hne : p ≠ q := fun heq => hq (heq ▸ hp)
        simp [hp, hq, Ne.symm hq]
    · rw [if_neg hp, List.find?_cons, List.find?_cons]
      by_cases hq : p = q
      · have hne : q ≠ place := hq ▸ hp
        simp [hq, hne]
      · simp only [beq_eq_false_iff_ne.2 hq]
        exact ih

/-- What is behind putting an entry was there before, or it is the entry. -/
theorem mem_putEntry {entries : List (Place × Entry)} {e : Place × Entry}
    (h : e ∈ putEntry place entry entries) : e = (place, entry) ∨ e ∈ entries := by
  induction entries with
  | nil => exact Or.inl (List.mem_singleton.1 h)
  | cons first rest ih =>
    rw [putEntry] at h
    split at h
    · exact (List.mem_cons.1 h).imp_right (List.mem_cons_of_mem _)
    · rcases List.mem_cons.1 h with rfl | hrest
      · exact Or.inr List.mem_cons_self
      · exact (ih hrest).imp_right (List.mem_cons_of_mem _)

/-- Putting an entry adds its place at most. -/
theorem map_fst_putEntry (entries : List (Place × Entry)) :
    (putEntry place entry entries).map Prod.fst =
      if place ∈ entries.map Prod.fst then entries.map Prod.fst
      else entries.map Prod.fst ++ [place] := by
  induction entries with
  | nil => rfl
  | cons first rest ih =>
    rw [putEntry]
    by_cases hp : first.1 = place
    · simp [hp]
    · rw [if_neg hp, List.map_cons, ih, List.map_cons]
      by_cases hrest : place ∈ rest.map Prod.fst
      · rw [if_pos hrest, if_pos (List.mem_cons_of_mem _ hrest)]
      · rw [if_neg hrest, if_neg (by simpa [Ne.symm hp] using hrest), List.cons_append]

variable {place} (tree : FileTree)

/-- Putting an entry below the root changes what is at its place and nowhere else. -/
theorem entry?_put (h : place.isAtOrAboveRoot = false) (q : Place) :
    FileTree.entry? (tree.put place entry) q = if q = place then some entry else tree.entry? q := by
  unfold entry? put
  dsimp only
  rw [find?_putEntry]
  by_cases hq : q = place
  · rw [hq, h]
    simp
  · rw [if_neg hq, if_neg hq]

/-- Putting an entry below the root changes what the file at its place holds and no other. -/
theorem fileAt?_put (h : place.isAtOrAboveRoot = false) (q : Place) :
    (tree.put place entry).fileAt? q =
      if q = place then entry.content? else tree.fileAt? q := by
  rw [fileAt?, entry?_put entry tree h]
  split
  · rfl
  · rfl

/-- Putting an entry where no folder is keeps all folders. -/
theorem isFolder_put (h : place.isAtOrAboveRoot = false) (hplace : tree.isFolder place = false)
    {q : Place} (hq : tree.isFolder q = true) : (tree.put place entry).isFolder q = true := by
  have hne : q ≠ place := fun heq => by rw [heq, hplace] at hq; cases hq
  rwa [isFolder, entry?_put entry tree h, if_neg hne, ← isFolder]

end Putting

/-- What is found below the root stands in the list. -/
theorem mem_entries_of_entry?_eq {tree : FileTree} {place : Place} {entry : Entry}
    (hplace : place.isAtOrAboveRoot = false) (hentry : tree.entry? place = some entry) :
    (place, entry) ∈ tree.entries := by
  unfold entry? at hentry
  rw [hplace, if_neg Bool.false_ne_true, Option.map_eq_some_iff] at hentry
  obtain ⟨e, hfound, rfl⟩ := hentry
  have hfst : e.1 = place := by simpa using List.find?_some hfound
  exact hfst ▸ List.mem_of_find?_eq_some hfound

namespace IsSound

variable {tree : FileTree} (h : tree.IsSound)
include h

/-- What stands in the list is found. -/
theorem entry?_of_mem {place : Place} {entry : Entry} (hmem : (place, entry) ∈ tree.entries) :
    tree.entry? place = some entry := by
  have hbelow : place.isAtOrAboveRoot = false := by
    rw [← Bool.not_eq_true, ← Place.inner_eq_nil_iff]
    exact h.below _ hmem
  unfold entry?
  rw [hbelow, if_neg Bool.false_ne_true, Option.map_eq_some_iff]
  cases hfound : tree.entries.find? fun e => e.1 == place with
  | none => exact absurd (beq_self_eq_true place) (List.find?_eq_none.1 hfound _ hmem)
  | some e =>
    have hfst : e.1 = place := by simpa using List.find?_some hfound
    have heq := List.inj_on_of_nodup_map h.distinct (List.mem_of_find?_eq_some hfound) hmem hfst
    exact ⟨e, rfl, by rw [heq]⟩

/-- The folder above a folder is one. -/
theorem isFolder_above {place : Place} (hplace : tree.isFolder place = true) :
    tree.isFolder place.above = true := by
  rw [Place.above]
  split
  · next hroot =>
    have hup : Place.isAtOrAboveRoot (SourcePath.up :: place) = true := by
      rw [Place.isAtOrAboveRoot, List.all_cons, beq_self_eq_true, Bool.true_and]
      exact hroot
    rw [isFolder, entry?, if_pos hup]
    rfl
  · next hbelow =>
    rw [isFolder, beq_iff_eq] at hplace
    exact h.within _ (mem_entries_of_entry?_eq (Bool.not_eq_true _ ▸ hbelow) hplace)

/-- What lies behind a place shows that there is a folder at the place. The induction is on the names
behind it, last name first. -/
theorem isFolder_of_entry?_append {place : Place} {names : Place} {entry : Entry}
    (hne : names ≠ []) (hentry : tree.entry? (place ++ names) = some entry)
    (hup : names.head? ≠ some SourcePath.up) : tree.isFolder place = true := by
  induction names using List.reverseRecOn generalizing entry with
  | nil => exact absurd rfl hne
  | append_singleton front last ih =>
    have hfolder := h.within _
      (mem_entries_of_entry?_eq (Place.isAtOrAboveRoot_append hne hup) hentry)
    rw [← List.append_assoc, List.dropLast_concat] at hfolder
    cases front with
    | nil => rwa [List.append_nil] at hfolder
    | cons first front => exact ih (List.cons_ne_nil _ _) (beq_iff_eq.1 hfolder) (by simpa using hup)

/-- Putting an entry with a name into a folder, in place of no folder, keeps a tree sound. -/
theorem put {place : Place} {name : Text} (hplace : tree.isFolder place = true)
    (hname : IsEntryName name) (hold : tree.isFolder (place ++ [name]) = false) (entry : Entry) :
    (tree.put (place ++ [name]) entry).IsSound := by
  have hbelow := place.isAtOrAboveRoot_concat hname.ne_up
  have hinner := place.inner_concat hname.ne_up
  refine ⟨?_, ?_, ?_, ?_⟩
  · change ((putEntry (place ++ [name]) entry tree.entries).map Prod.fst).Nodup
    rw [map_fst_putEntry]
    split
    · exact h.distinct
    · next hnew => exact h.distinct.append (List.nodup_singleton _) (List.disjoint_singleton.2 hnew)
  · intro e he
    rcases mem_putEntry _ _ he with rfl | he
    · rw [hinner]
      simp
    · exact h.below e he
  · intro e he n hn
    rcases mem_putEntry _ _ he with rfl | he
    · rw [hinner, List.mem_append, List.mem_singleton] at hn
      rcases hn with hn | rfl
      · -- The folder has such names: it is at the root or stands in the list.
        cases hroot : place.isAtOrAboveRoot with
        | true =>
          rw [Place.inner_eq_nil_iff.2 hroot] at hn
          cases hn
        | false => exact h.named _ (mem_entries_of_entry?_eq hroot (beq_iff_eq.1 hplace)) n hn
      · exact hname
    · exact h.named e he n hn
  · intro e he
    apply isFolder_put entry tree hbelow hold
    rcases mem_putEntry _ _ he with rfl | he
    · rwa [List.dropLast_concat]
    · exact h.within e he

end IsSound

section Following

variable (tree : FileTree)

/-- The root is a folder. -/
theorem isFolder_root : tree.isFolder [] = true := rfl

/-- Following names goes on from where the first ones lead. -/
theorem follow_append (place : Place) (names names' : List Text) :
    tree.follow place (names ++ names') =
      (tree.follow place names).bind fun p => tree.follow p names' := by
  induction names generalizing place with
  | nil => rfl
  | cons name rest ih =>
    rw [List.cons_append, follow, follow]
    split
    · split
      · exact ih place
      · split
        · exact ih place.above
        · exact ih (place ++ [name])
    · rfl

/-- Only a folder is followed further. -/
theorem isFolder_of_follow {place q : Place} {names : List Text} (hne : names ≠ [])
    (h : tree.follow place names = some q) : tree.isFolder place = true := by
  cases names with
  | nil => exact absurd rfl hne
  | cons name rest =>
    rw [follow] at h
    split at h
    · assumption
    · cases h

/-- A path that goes on behind a folder's path goes on from the place of the folder. A slash at the end of
the folder's path makes no difference. -/
theorem follow_slash (folder path : Text) :
    tree.follow [] ((folder.slash path).splitOn '/') =
      (tree.follow [] (folder.splitOn '/')).bind fun p => tree.follow p (path.splitOn '/') := by
  have hdot (p : Place) : tree.follow p [[]] = if tree.isFolder p then some p else none := by
    rw [follow, if_pos (Or.inl rfl), follow]
  unfold Text.slash
  by_cases hempty : folder = []
  · rw [if_pos (Or.inl hempty), hempty]
    change tree.follow [] (path.splitOn '/') = (tree.follow [] [[]]).bind _
    rw [hdot, isFolder_root, if_pos rfl, Option.bind_some]
  by_cases hslash : folder.getLast? = some '/'
  · obtain ⟨front, rfl⟩ := List.getLast?_eq_some_iff.1 hslash
    have hfolder : Text.splitOn (front ++ ['/']) '/' = Text.splitOn front '/' ++ [[]] :=
      Text.splitOn_append_cons front [] '/'
    have hpath : Text.splitOn (front ++ ['/'] ++ path) '/' =
        Text.splitOn front '/' ++ Text.splitOn path '/' := by
      rw [List.append_assoc]
      exact Text.splitOn_append_cons front path '/'
    rw [if_pos (Or.inr hslash), hfolder, hpath, follow_append, follow_append]
    cases tree.follow [] (Text.splitOn front '/') with
    | none => rfl
    | some p =>
      rw [Option.bind_some, Option.bind_some, hdot]
      split
      · rfl
      · next hfile =>
        cases hpath : tree.follow p (Text.splitOn path '/') with
        | none => rfl
        | some q => exact absurd (tree.isFolder_of_follow (Text.splitOn_ne_nil path '/') hpath) hfile
  · have hpath := Text.splitOn_append_cons folder path '/'
    rw [if_neg (not_or.2 ⟨hempty, hslash⟩), ← follow_append, ← hpath]

variable {tree}

/-- What can be followed can be followed where there are more folders. -/
theorem follow_of_folders {tree' : FileTree}
    (h : ∀ place, tree.isFolder place = true → tree'.isFolder place = true) {place q : Place}
    {names : List Text} (hfollow : tree.follow place names = some q) :
    tree'.follow place names = some q := by
  induction names generalizing place with
  | nil => exact hfollow
  | cons name rest ih =>
    have hfolder := h place (tree.isFolder_of_follow (List.cons_ne_nil _ _) hfollow)
    have hplace := tree.isFolder_of_follow (List.cons_ne_nil _ _) hfollow
    rw [follow, if_pos hplace] at hfollow
    rw [follow, if_pos hfolder]
    split
    · next hdot => exact ih (by rwa [if_pos hdot] at hfollow)
    · next hdot =>
      rw [if_neg hdot] at hfollow
      split
      · next hup => exact ih (by rwa [if_pos hup] at hfollow)
      · next hup => exact ih (by rwa [if_neg hup] at hfollow)

/-- The names of an entry lead to it from any folder on the way. -/
theorem IsSound.follow_eq_append (h : tree.IsSound) {place names : Place} {entry : Entry}
    (hnames : ∀ name ∈ names, IsEntryName name) (hentry : tree.entry? (place ++ names) = some entry) :
    tree.follow place names = some (place ++ names) := by
  induction names generalizing place with
  | nil => rw [List.append_nil, follow]
  | cons name rest ih =>
    obtain ⟨hname, hrest⟩ := List.forall_mem_cons.1 hnames
    have hplace := h.isFolder_of_entry?_append (List.cons_ne_nil name rest) hentry
      (by simpa using hname.ne_up)
    have hsplit : place ++ name :: rest = place ++ [name] ++ rest := by simp
    rw [hsplit] at hentry
    rw [follow, if_pos hplace, if_neg (not_or.2 ⟨hname.ne_nil, hname.ne_here⟩), if_neg hname.ne_up,
      ih hrest hentry, hsplit]

/-- Names that are followed without a detour lead to the place behind which they stand. -/
theorem eq_append_of_follow {place q names : Place} (hnames : ∀ name ∈ names, IsEntryName name)
    (h : tree.follow place names = some q) : q = place ++ names := by
  induction names generalizing place with
  | nil =>
    cases h
    rw [List.append_nil]
  | cons name rest ih =>
    obtain ⟨hname, hrest⟩ := List.forall_mem_cons.1 hnames
    rw [follow, if_pos (tree.isFolder_of_follow (List.cons_ne_nil _ _) h),
      if_neg (not_or.2 ⟨hname.ne_nil, hname.ne_here⟩), if_neg hname.ne_up] at h
    rw [ih hrest h, List.append_assoc, List.singleton_append]

end Following

end FileTree

section Paths

variable {folder : Text} {names : Place}

/-- The path of what names lead to from a folder. -/
def Text.below (folder : Text) (names : Place) : Text :=
  if names = [] then folder else folder.slash (SourcePath.join names)

/-- Joined names are no empty path, and none from outside of the tree. -/
theorem head?_join (hne : names ≠ []) (hnames : ∀ name ∈ names, IsEntryName name) :
    ∃ c, (SourcePath.join names).head? = some c ∧ c ≠ '/' := by
  cases names with
  | nil => exact absurd rfl hne
  | cons name rest =>
    obtain ⟨hname, -⟩ := List.forall_mem_cons.1 hnames
    obtain ⟨c, tail, rfl⟩ := List.exists_cons_of_ne_nil hname.ne_nil
    refine ⟨c, ?_, fun hc => hname.slash_not_mem (hc ▸ List.mem_cons_self)⟩
    cases rest <;> simp [SourcePath.join, List.intercalate]

/-- What is in a joined path is in one of the names, or a slash. -/
theorem mem_join {c : Char} (hc : c ∈ SourcePath.join names) : c = '/' ∨ ∃ name ∈ names, c ∈ name := by
  obtain rfl | ⟨front, last, rfl⟩ := List.eq_nil_or_concat' names
  · cases hc
  · rw [SourcePath.join_concat, List.mem_append, SourcePath.folder, List.mem_flatMap] at hc
    rcases hc with ⟨name, hname, hc⟩ | hc
    · rcases List.mem_append.1 hc with hc | hc
      · exact Or.inr ⟨name, List.mem_append_left _ hname, hc⟩
      · exact Or.inl (List.mem_singleton.1 hc)
    · exact Or.inr ⟨last, by simp, hc⟩

/-- The path of what names lead to is not empty. -/
theorem slash_join_ne_nil (hne : names ≠ []) (hnames : ∀ name ∈ names, IsEntryName name) :
    folder.slash (SourcePath.join names) ≠ [] := by
  obtain ⟨c, hc, -⟩ := head?_join hne hnames
  have hjoin : SourcePath.join names ≠ [] := fun hnil => by rw [hnil] at hc; cases hc
  unfold Text.slash
  split
  · exact List.append_ne_nil_of_right_ne_nil _ hjoin
  · exact List.append_ne_nil_of_right_ne_nil _ (List.cons_ne_nil _ _)

/-- Behind the path of a folder, a path through names can be followed if it is short enough. -/
theorem isRelativePath_below (hfolder : isRelativePath folder = true)
    (hnames : ∀ name ∈ names, IsEntryName name) :
    isRelativePath (folder.below names) = isShortPath (folder.below names) := by
  rw [Text.below]
  split
  · rw [hfolder]
    rw [isRelativePath, Bool.and_eq_true, Bool.and_eq_true] at hfolder
    exact hfolder.1.2.symm
  · next hne =>
    obtain ⟨c, hc, hslash⟩ := head?_join hne hnames
    simp only [isRelativePath, Bool.and_eq_true, bne_iff_ne, Bool.not_eq_true', List.any_eq_false,
      beq_iff_eq] at hfolder
    obtain ⟨⟨hhead, -⟩, hnul⟩ := hfolder
    have hhead' : (folder.slash (SourcePath.join names)).head? ≠ some '/' := by
      rw [Text.slash]
      cases folder with
      | nil => simpa [hc] using hslash
      | cons d rest => split <;> simpa using hhead
    have hnul' : ∀ d ∈ folder.slash (SourcePath.join names), d.toNat ≠ 0 := by
      have hjoin : ∀ d ∈ SourcePath.join names, d.toNat ≠ 0 := by
        intro d hd
        rcases mem_join hd with rfl | ⟨name, hname, hd⟩
        · decide
        · exact (hnames name hname).nul_not_mem d hd
      intro d hd
      rw [Text.slash] at hd
      split at hd
      · exact (List.mem_append.1 hd).elim (hnul d) (hjoin d)
      · rcases List.mem_append.1 hd with hd | hd
        · exact hnul d hd
        · rcases List.mem_cons.1 hd with rfl | hd
          · decide
          · exact hjoin d hd
    rw [isRelativePath, bne_iff_ne.2 hhead', Bool.true_and]
    have hany : (folder.slash (SourcePath.join names)).any (fun c => c.toNat == 0) = false := by
      rw [List.any_eq_false]
      exact fun d hd => by simpa using hnul' d hd
    rw [hany, Bool.not_false, Bool.and_true]

end Paths

namespace FileTree

section Finding

variable {tree : FileTree} {folder : Text} {place names : Place}

/-- A path that means a place has no other names than those that lead there. -/
theorem isRelativePath_of_locate? (h : tree.locate? folder = some place) :
    isRelativePath folder = true ∧ folder ≠ [] ∧ tree.follow [] (folder.splitOn '/') = some place := by
  rw [locate?] at h
  split at h
  · next hpath =>
    rw [Bool.and_eq_true, Bool.not_eq_true', List.isEmpty_eq_false_iff] at hpath
    exact ⟨hpath.1, hpath.2, h⟩
  · cases h

/-- A path through names goes on from the place of its folder. -/
theorem locate?_below (hfolder : isRelativePath folder = true)
    (hfollow : tree.follow [] (folder.splitOn '/') = some place) (hne : names ≠ [])
    (hnames : ∀ name ∈ names, IsEntryName name) :
    tree.locate? (folder.below names) =
      if isShortPath (folder.below names) then tree.follow place names else none := by
  have hsplit := splitOn_join hne fun name hname => (hnames name hname).slash_not_mem
  have hslash := tree.follow_slash folder (SourcePath.join names)
  rw [hfollow, Option.bind_some, hsplit] at hslash
  have hpath : folder.below names = folder.slash (SourcePath.join names) := if_neg hne
  have hnonempty : (folder.below names).isEmpty = false := by
    rw [hpath, List.isEmpty_eq_false_iff]
    exact slash_join_ne_nil hne hnames
  rw [locate?, isRelativePath_below hfolder hnames, hnonempty, Bool.not_false, Bool.and_true, hpath, hslash]

/-- What the path through the names of an entry leads to, unless it is too long. -/
theorem IsSound.find?_below (h : tree.IsSound) (hfolder : tree.locate? folder = some place)
    (hnames : ∀ name ∈ names, IsEntryName name) {entry : Entry}
    (hentry : tree.entry? (place ++ names) = some entry) :
    tree.find? (folder.below names) = if isShortPath (folder.below names) then some entry else none := by
  obtain ⟨hpath, -, hfollow⟩ := isRelativePath_of_locate? hfolder
  by_cases hne : names = []
  · have hshort : isShortPath folder = true := by
      rw [isRelativePath, Bool.and_eq_true, Bool.and_eq_true] at hpath
      exact hpath.1.2
    rw [hne, List.append_nil] at hentry
    rw [hne, Text.below, if_pos rfl, if_pos hshort, find?, hfolder, Option.bind_some, hentry]
  · rw [find?, locate?_below hpath hfollow hne hnames, h.follow_eq_append hnames hentry]
    split
    · rw [Option.bind_some, hentry]
    · rfl

end Finding

end FileTree

end ClassFlattening
