import ClassFlattening.Proofs.LineageAgreement
import ClassFlattening.Proofs.Registered
import ClassFlattening.Rendering

/-!
# What a rendered file depends on

A reference is followed through the aliases of the file that states it, to a class of that file or of
one that an alias stands for, and the next reference is that class's own. A region of files that no alias
leads out of is therefore never left, however long the line of ancestors is. `Registry.AgreeOn` says that
two registries know the same of such a region; then every lookup in it gives the same, and with the
lookups the lines of ancestors, the flattened classes and the rendered files.

A registry that is filled with sources knows of each path what was made of its source, in whatever order
the sources came. The files reached from one file by its aliases are a region of it, so the text of that
file depends on them alone.
-/

namespace ClassFlattening

namespace Registry

/-- Two registries have the same records for a region of files, each with classes of its own file, and
no alias leads out of the region. -/
structure AgreeOn (registry other : Registry) (region : Text → Prop) : Prop where
  file?_eq {path : Text} : region path → registry.file? path = other.file? path
  closed {path name target : Text} {record : FileRecord} : region path →
    registry.file? path = some record → record.aliases.path? name = some target → region target
  file_of_mem {path : Text} {record : FileRecord} {c : Class} : region path →
    registry.file? path = some record → c ∈ record.classes → c.file = path

namespace AgreeOn

variable {registry other : Registry} {region : Text → Prop}

/-- A class of a file in the region is found in both registries. -/
theorem class?_eq (h : registry.AgreeOn other region) {path : Text} (hpath : region path)
    (name : Text) : registry.class? path name = other.class? path name := by
  rw [class?, class?, h.file?_eq hpath]

/-- A class that is found in a file of the region is of the region. -/
theorem region_of_class? (h : registry.AgreeOn other region) {path name : Text} {c : Class}
    (hpath : region path) (hc : registry.class? path name = some c) : region c.file := by
  obtain ⟨record, hrecord, hname⟩ := Option.bind_eq_some_iff.1 hc
  rw [h.file_of_mem hpath hrecord (List.mem_of_find?_eq_some hname)]
  exact hpath

/-- A reference in a file of the region leads to the same class in both registries, and that class is of
the region. -/
theorem resolve?_eq (h : registry.AgreeOn other region) {file : Text} (hfile : region file)
    (reference : Text) : registry.resolve? reference file = other.resolve? reference file ∧
      ∀ c, registry.resolve? reference file = some c → region c.file := by
  unfold resolve?
  split
  · next cut _ =>
    rw [← h.file?_eq hfile]
    cases hrecord : registry.file? file with
    | none => exact ⟨rfl, fun c hc => nomatch hc⟩
    | some record =>
      simp only [Option.bind_eq_bind, Option.bind_some]
      cases htarget : record.aliases.path? cut.before.trim with
      | none => exact ⟨rfl, fun c hc => nomatch hc⟩
      | some target =>
        have hregion := h.closed hfile hrecord htarget
        exact ⟨h.class?_eq hregion _, fun c hc => h.region_of_class? hregion hc⟩
  · exact ⟨h.class?_eq hfile _, fun c hc => h.region_of_class? hfile hc⟩

/-- The parent of a class of the region is the same class in both registries, and of the region. -/
theorem parentOf?_eq (h : registry.AgreeOn other region) {c : Class} (hc : region c.file) :
    registry.parentOf? c = other.parentOf? c ∧
      ∀ parent, registry.parentOf? c = some parent → region parent.file := by
  rw [parentOf?, parentOf?]
  cases c.parent with
  | none => exact ⟨rfl, fun parent hparent => nomatch hparent⟩
  | some reference => exact h.resolve?_eq hc reference

/-- Collecting a line goes the same way from a member in the region on. The induction is on the room that
is left; each step stays in the region. -/
theorem ancestorsFrom_eq (h : registry.AgreeOn other region) (c : Class) (room : Nat)
    (found : List Class) {member : Class} (hmember : region member.file) :
    registry.ancestorsFrom c room found member = other.ancestorsFrom c room found member := by
  obtain ⟨hparent, hregion⟩ := h.parentOf?_eq hmember
  induction room generalizing found member with
  | zero => rw [ancestorsFrom_step, ancestorsFrom_step, hparent]
  | succ room ih =>
    rw [ancestorsFrom_step, ancestorsFrom_step, ← hparent]
    cases hp : registry.parentOf? member with
    | none => rfl
    | some parent =>
      obtain ⟨hparent', hregion'⟩ := h.parentOf?_eq (hregion parent hp)
      simp only [ih (found ++ [parent]) (hregion parent hp) hparent' hregion']

/-- A class of the region has the same line of ancestors in both registries. -/
theorem ancestors_eq (h : registry.AgreeOn other region) {c : Class} (hc : region c.file) :
    registry.ancestors c = other.ancestors c :=
  h.ancestorsFrom_eq c lineageLimit [] hc

/-- A class of the region is generated alike in both registries, with its mixins looked up from a file of
the region. -/
theorem generate_eq (h : registry.AgreeOn other region) (settings : Settings) {c : Class}
    (hc : region c.file) {file : Text} (hfile : region file) :
    c.generate settings file registry = c.generate settings file other := by
  have hmixins : c.resolvedMixins registry file = c.resolvedMixins other file := by
    unfold Class.resolvedMixins
    exact congrArg (List.filterMap · c.mixins)
      (funext fun reference => (h.resolve?_eq hfile reference).1)
  unfold Class.generate Class.flatten
  rw [h.ancestors_eq hc, hmixins]

/-- A file of the region is rendered alike in both registries. -/
theorem render_eq (h : registry.AgreeOn other region) (settings : Settings) {path : Text}
    {record : FileRecord} (hpath : region path) (hrecord : registry.file? path = some record) :
    render settings registry record = render settings other record := by
  have hgenerate : ∀ c ∈ record.classes,
      c.generate settings record.path registry = c.generate settings record.path other := by
    intro c hc
    apply h.generate_eq settings
    · rw [h.file_of_mem hpath hrecord hc]
      exact hpath
    · rw [path_of_file? hrecord]
      exact hpath
  have hfrom (classes : List Class) (hsub : ∀ c ∈ classes, c ∈ record.classes) (cursor : Nat)
      (behind : Option Text) :
      renderFrom settings registry record.path record.source cursor behind classes =
        renderFrom settings other record.path record.source cursor behind classes := by
    induction classes generalizing cursor behind with
    | nil => rfl
    | cons c rest ih =>
      have hrest := ih fun d hd => hsub d (List.mem_cons_of_mem c hd)
      unfold renderFrom
      rw [hgenerate c (hsub c List.mem_cons_self)]
      simp only [hrest]
  rw [render, render, hfrom _ fun c hc => (sortBy_perm _ _).mem_iff.1 hc]

end AgreeOn

end Registry

/-- A path without a source is none of the paths. -/
theorem lookup_eq_none_iff {sources : List (Text × Text)} {path : Text} :
    sources.lookup path = none ↔ path ∉ sources.map Prod.fst := by
  rw [List.lookup_eq_none_iff, List.mem_map]
  constructor
  · rintro h ⟨entry, hentry, rfl⟩
    simpa using h entry hentry
  · intro h entry hentry
    exact bne_iff_ne.2 fun heq => h ⟨entry, hentry, heq.symm⟩

/-- Of different paths each has its own source. -/
theorem lookup_of_mem {sources : List (Text × Text)} {path source : Text}
    (hdistinct : (sources.map Prod.fst).Nodup) (h : (path, source) ∈ sources) :
    sources.lookup path = some source := by
  induction sources with
  | nil => cases h
  | cons entry rest ih =>
    obtain ⟨hnew, hrest⟩ := List.nodup_cons.1 hdistinct
    rcases List.mem_cons.1 h with rfl | hmem
    · exact List.lookup_cons_self
    · have hne : path ≠ entry.1 := fun heq => hnew (heq ▸ List.mem_map_of_mem hmem)
      rw [List.lookup_cons, beq_eq_false_iff_ne.2 hne]
      exact ih hrest hmem

/-- Sources taken in one after the other. A fault of one does not keep the others out. -/
def Intake.registerAll (strict : Bool) (sources : List (Text × Text)) : Intake :=
  sources.foldl (fun intake (file, source) => (intake.register strict file source).1) {}

/-- Behind sources of different paths each path has the record that is made of its source, in whatever
order the sources came. -/
theorem Intake.file?_registerAll (strict : Bool) {sources : List (Text × Text)}
    (h : (sources.map Prod.fst).Nodup) (path : Text) :
    (registerAll strict sources).registry.file? path =
      (sources.lookup path).map (FileRecord.ofSource strict path) := by
  have hfoldl (intake : Intake) :
      (sources.foldl (fun intake (file, source) => (intake.register strict file source).1)
        intake).registry.file? path =
        ((sources.lookup path).map (FileRecord.ofSource strict path)).or
          (intake.registry.file? path) := by
    induction sources generalizing intake with
    | nil => rfl
    | cons entry rest ih =>
      obtain ⟨file, source⟩ := entry
      obtain ⟨hnew, hrest⟩ := List.nodup_cons.1 h
      rw [List.foldl_cons, ih hrest, Intake.file?_register, List.lookup_cons]
      by_cases hfile : file = path
      · subst hfile
        rw [lookup_eq_none_iff.2 hnew, if_pos rfl, beq_self_eq_true]
        rfl
      · rw [if_neg hfile, beq_eq_false_iff_ne.2 (Ne.symm hfile)]
  rw [registerAll, hfoldl]
  exact Option.or_none

/-- The registered files that are reached from a file by the aliases of the files on the way. -/
inductive Reaches (sources : List (Text × Text)) (start : Text) : Text → Prop
  | start : Reaches sources start start
  | follow {file source name target : Text} (hfile : Reaches sources start file)
      (hsource : sources.lookup file = some source)
      (halias : (importAliases file source).path? name = some target)
      (hregistered : target ∈ sources.map Prod.fst) : Reaches sources start target

/-- Where two lists of sources have the same files in reach of one file, with the same sources, their
registries agree on these files and on the paths that are in neither list. -/
theorem agreeOn_of_reaches (strict : Bool) {sources others : List (Text × Text)} {start : Text}
    (hdistinct : (sources.map Prod.fst).Nodup) (hdistinct' : (others.map Prod.fst).Nodup)
    (hreaches : ∀ file, Reaches sources start file ↔ Reaches others start file)
    (hsame : ∀ file, Reaches sources start file → sources.lookup file = others.lookup file) :
    (Intake.registerAll strict sources).registry.AgreeOn (Intake.registerAll strict others).registry
      fun path => Reaches sources start path ∨
        path ∉ sources.map Prod.fst ∧ path ∉ others.map Prod.fst := by
  have hfile? := Intake.file?_registerAll strict hdistinct
  have hsource {path : Text} {record : FileRecord}
      (h : (Intake.registerAll strict sources).registry.file? path = some record) :
      ∃ source, sources.lookup path = some source ∧ record = .ofSource strict path source := by
    rw [hfile?, Option.map_eq_some_iff] at h
    obtain ⟨source, hsource, hrecord⟩ := h
    exact ⟨source, hsource, hrecord.symm⟩
  refine ⟨?_, ?_, ?_⟩
  · rintro path (hpath | ⟨hpath, hpath'⟩)
    · rw [hfile?, Intake.file?_registerAll strict hdistinct', hsame path hpath]
    · rw [hfile?, Intake.file?_registerAll strict hdistinct', lookup_eq_none_iff.2 hpath,
        lookup_eq_none_iff.2 hpath']
  · rintro path name target record hpath hrecord halias
    obtain ⟨source, hlookup, rfl⟩ := hsource hrecord
    rw [FileRecord.aliases_ofSource] at halias
    -- A path with a record is not one that is in neither list.
    have hfrom : Reaches sources start path := hpath.resolve_right fun ⟨hnone, _⟩ => by
      rw [lookup_eq_none_iff.2 hnone] at hlookup
      cases hlookup
    by_cases htarget : target ∈ sources.map Prod.fst
    · exact Or.inl (hfrom.follow hlookup halias htarget)
    by_cases htarget' : target ∈ others.map Prod.fst
    · have hlookup' := (hsame path hfrom).symm.trans hlookup
      exact Or.inl ((hreaches target).2
        (((hreaches path).1 hfrom).follow hlookup' halias htarget'))
    · exact Or.inr ⟨htarget, htarget'⟩
  · rintro path record c - hrecord hc
    obtain ⟨source, -, rfl⟩ := hsource hrecord
    exact FileRecord.file_of_mem_ofSource hc

/-- The text of a file, or the fault that it is refused with, depends only on the sources of the files
that are reached from it: two lists of sources of different paths that have the same files in reach of
it, with the same sources, register the same record for it and render it alike, whatever other files
there are and in whatever order all of them are taken in. -/
theorem render_of_reaches (strict : Bool) (settings : Settings) {sources others : List (Text × Text)}
    {start : Text} (hdistinct : (sources.map Prod.fst).Nodup)
    (hdistinct' : (others.map Prod.fst).Nodup) (hstart : start ∈ sources.map Prod.fst)
    (hreaches : ∀ file, Reaches sources start file ↔ Reaches others start file)
    (hsame : ∀ file, Reaches sources start file → sources.lookup file = others.lookup file) :
    ∃ record, (Intake.registerAll strict sources).registry.file? start = some record ∧
      (Intake.registerAll strict others).registry.file? start = some record ∧
      render settings (Intake.registerAll strict sources).registry record =
        render settings (Intake.registerAll strict others).registry record := by
  have hagree := agreeOn_of_reaches strict hdistinct hdistinct' hreaches hsame
  have hregion : Reaches sources start start ∨
      start ∉ sources.map Prod.fst ∧ start ∉ others.map Prod.fst := Or.inl .start
  cases hrecord : (Intake.registerAll strict sources).registry.file? start with
  | none =>
    rw [Intake.file?_registerAll strict hdistinct, Option.map_eq_none_iff, lookup_eq_none_iff] at hrecord
    exact absurd hstart hrecord
  | some record =>
    exact ⟨record, rfl, (hagree.file?_eq hregion).symm.trans hrecord,
      hagree.render_eq settings hregion hrecord⟩

/-- A class that another file inherits from. -/
def baseSource : Text :=
  "const Base = zoop.class(struct \x7b\n    x: u8,\n\x7d);\n".toList

/-- A class whose parent is declared in another file. -/
def heirSource : Text :=
  "const b = @import(\"base\");\n".toList ++
    "const Heir = zoop.class(struct \x7b\n    pub const extends = b.Base;\n\x7d);\n".toList

/-- The heir with its parent and nothing else. -/
def besideBase : List (Text × Text) := [("base".toList, baseSource), ("heir".toList, heirSource)]

/-- The same two files in the other order, with a third one that has classes of the same names. -/
def besideStranger : List (Text × Text) :=
  [("heir".toList, heirSource), ("stranger".toList, baseSource ++ heirSource),
    ("base".toList, baseSource)]

/-- From the heir only its parent's file is reached. -/
theorem reaches_heir_iff {sources : List (Text × Text)}
    (hheir : sources.lookup "heir".toList = some heirSource)
    (hbase : sources.lookup "base".toList = some baseSource) (file : Text) :
    Reaches sources "heir".toList file ↔ file = "heir".toList ∨ file = "base".toList := by
  have haliases : importAliases "heir".toList heirSource = [("b".toList, "base".toList)] := by
    decide +kernel
  have haliases' : importAliases "base".toList baseSource = [] := by decide +kernel
  constructor
  · intro h
    induction h with
    | start => exact Or.inl rfl
    | @follow file source name target _ hsource halias _ ih =>
      rcases ih with rfl | rfl
      · rw [hheir] at hsource
        cases hsource
        rw [haliases, Aliases.path?, Option.map_eq_some_iff] at halias
        obtain ⟨entry, hentry, rfl⟩ := halias
        obtain rfl := List.mem_singleton.1 (List.mem_of_find?_eq_some hentry)
        exact Or.inr rfl
      · rw [hbase] at hsource
        cases hsource
        rw [haliases'] at halias
        cases halias
  · rintro (rfl | rfl)
    · exact .start
    · have halias : (importAliases "heir".toList heirSource).path? "b".toList =
          some "base".toList := by
        rw [haliases]
        decide
      refine Reaches.start.follow hheir halias (Decidable.byContradiction fun hnone => ?_)
      rw [lookup_eq_none_iff.2 hnone] at hbase
      cases hbase

/-- The heir is rendered alike beside the stranger and without it, in either order. -/
theorem render_of_reaches_heir :
    besideBase ≠ besideStranger ∧
      ∃ record,
        (Intake.registerAll true besideBase).registry.file? "heir".toList = some record ∧
        (Intake.registerAll true besideStranger).registry.file? "heir".toList = some record ∧
        render {} (Intake.registerAll true besideBase).registry record =
          render {} (Intake.registerAll true besideStranger).registry record := by
  have hreaches := @reaches_heir_iff besideBase rfl rfl
  have hreaches' := @reaches_heir_iff besideStranger rfl rfl
  refine ⟨by decide, render_of_reaches true {} (by decide) (by decide) (by decide) ?_ ?_⟩
  · intro file
    rw [hreaches, hreaches']
  · intro file hfile
    rcases (hreaches file).1 hfile with rfl | rfl
    · rfl
    · rfl

end ClassFlattening
