import ClassFlattening.Proofs.ImportCalls
import ClassFlattening.Proofs.Locality
import ClassFlattening.Proofs.RelativePaths

/-!
# Imports lead to the right file

A reference through an alias is followed in three steps: the scan of the source finds the call that binds
the alias, whatever text is around it; the path in the call is folded onto the folder of the importing
file; and the path that results is the one under which the other file is registered. For a line that
binds an alias to a relative path from one file to another the three agree, so the reference leads to
whatever class the other file has of that name.
-/

namespace ClassFlattening

/-- The line `const name = @import("imported");`. -/
def importLine (name imported : Text) : Text := importBinding name ++ (importCall imported ++ [';'])

/-- A relative path from the folder of one file to another: `../` for each folder that is left above one
that the two have in common, then the rest of the other path, with or without `./` in front. -/
inductive RelativeImport : Text → Text → Text → Prop
  | intro {common left target : List Text} {last : Text}
      (names : ∀ name ∈ common ++ left ++ last :: target, SourcePath.IsName name) (dotted : Bool) :
      RelativeImport (SourcePath.join (common ++ left ++ [last])) (SourcePath.join (common ++ target))
        (SourcePath.relative dotted left.length target)

namespace RelativeImport

variable {file target imported : Text}

/-- A relative import leads to its target. -/
theorem resolve_eq (h : RelativeImport file target imported) :
    SourcePath.resolve file imported = target := by
  obtain ⟨hnames, dotted⟩ := h
  exact SourcePath.resolve_relative hnames dotted

/-- What is in no name is not in a relative import either, apart from the slash. -/
theorem not_mem (h : RelativeImport file target imported) {c : Char} (hc : c ∈ SourcePath.nameStops)
    (hslash : c ≠ '/') : c ∉ imported := by
  obtain ⟨hnames, dotted⟩ := h
  have htarget := (List.forall_mem_cons.1 (List.forall_mem_append.1 hnames).2).2
  apply SourcePath.not_mem_relative ?_ hslash
  · exact fun name hname hmem => (htarget name hname).plain c hmem hc
  · rintro rfl
    exact absurd hc (by decide)

end RelativeImport

/-- A part of a text without parentheses at its end lies behind every call in front of it. -/
theorem exists_rest_of_append {front passed lead part : Text} (h : front ++ part = passed ++ lead)
    (hpassed : ∀ c ∈ passed.getLast?, c = ')') (hpart : ')' ∉ part) :
    ∃ rest, rest <:+ front ∧ lead = rest ++ part := by
  obtain ⟨more, rfl, rfl⟩ | ⟨rest, rfl, rfl⟩ := List.append_eq_append_iff.1 h
  · cases hlast : more.getLast? with
    | none =>
      rw [List.getLast?_eq_none_iff.1 hlast]
      exact ⟨[], List.nil_suffix, rfl⟩
    | some c =>
      rw [List.getLast?_append, hlast] at hpassed
      rw [hpassed c rfl] at hlast
      exact absurd (List.mem_append_left lead (List.mem_of_getLast? hlast)) hpart
  · exact ⟨rest, List.suffix_append passed rest, rfl⟩

/-- A line that binds a name to an import gives the file an alias for it, unless a later import call binds
the name again. -/
theorem path?_of_importLine {front back name imported : Text} (hfront : ∀ c ∈ front.getLast?, c = '\n')
    (hname : isAliasName name = true) (hquote : '"' ∉ imported) (hclosing : ')' ∉ imported)
    (hreserved : imported ∉ reservedModules)
    (hlater : ∀ call ∈ importCalls back, call.alias? ≠ some name) (file : Text) :
    (importAliases file (front ++ (importLine name imported ++ back))).path? name =
      some (SourcePath.resolve file imported) := by
  have hbinding : ')' ∉ importBinding name := by
    have hletter : ((')' : Char).isAlphanum || ')' == '_') = false := by decide
    unfold importBinding
    rw [List.mem_append, List.mem_append, not_or, not_or]
    refine ⟨by decide, fun hmem => ?_, by decide⟩
    have hchar := (chars_of_isAliasName hname).1 ')' hmem
    rw [hletter] at hchar
    cases hchar
  obtain ⟨passed, lead, hpassed, hlast, hcalls⟩ :=
    importCalls_append (readImport?_importCall hquote (';' :: back)) hclosing (front ++ importBinding name)
  obtain ⟨rest, hrest, hlead⟩ := exists_rest_of_append hpassed hlast hbinding
  have hsource : front ++ (importLine name imported ++ back) =
      front ++ importBinding name ++ (importCall imported ++ ';' :: back) := by
    simp only [importLine, List.append_assoc, List.singleton_append]
  rw [hsource]
  refine path?_importAliases hcalls ?_ ?_
  · apply ImportCall.alias?_of_importBinding ?_ hname hreserved hlead
    intro c hc
    obtain ⟨more, rfl⟩ := hrest
    rw [List.getLast?_append, hc] at hfront
    exact hfront c rfl
  · intro call hcall hbinds
    obtain ⟨other, hother, halias⟩ :=
      exists_alias?_of_mem_importCalls_cons isStopper_semicolon (by decide) hcall
    exact hlater other hother (halias.trans hbinds)

namespace Registry

/-- A reference behind an alias leads to the class of the name in the file that the alias stands for. -/
theorem resolve?_qualified {registry : Registry} {file target name className : Text}
    {record : FileRecord} (hrecord : registry.file? file = some record)
    (htarget : record.aliases.path? name = some target) (hname : isAliasName name = true)
    (hclass : className.trim = className) :
    registry.resolve? (name ++ '.' :: className) file = registry.class? target className := by
  obtain ⟨hchars, c, rest, hcons, -⟩ := chars_of_isAliasName hname
  have hblank : ∀ d ∈ name, isBlank d = false := fun d hd => isBlank_of_isAlphanum (hchars d hd)
  have hdot : ∀ d ∈ name, (d == '.') = false := by
    intro d hd
    refine beq_eq_false_iff_ne.2 fun heq => ?_
    have hchar := hchars d hd
    rw [heq] at hchar
    cases hchar
  have htrim : name.trim = name := Text.trim_eq_self
    (fun d hd => hblank d (List.mem_of_mem_head? hd)) (fun d hd => hblank d (List.mem_of_mem_getLast? hd))
  have hbehind : Text.trim ('.' :: className) = '.' :: className := by
    apply Text.trim_eq_self
    · intro d hd
      cases hd
      decide
    · intro d hd
      rw [List.getLast?_cons] at hd
      cases hlast : className.getLast? with
      | none =>
        rw [hlast] at hd
        cases hd
        decide
      | some e =>
        rw [hlast] at hd
        cases hd
        exact Text.isBlank_getLast hclass hlast
  have hwhole : Text.trim (name ++ '.' :: className) = name ++ '.' :: className := by
    rw [hcons]
    exact Text.trim_cons_append (hblank c (by rw [hcons]; exact List.mem_cons_self))
      (List.cons_ne_nil _ _) hbehind
  rw [resolve?, hwhole, Text.cutAtFirst?_self hdot (beq_self_eq_true '.')]
  simp only [Option.bind_eq_bind, hrecord, Option.bind_some, htrim, htarget, Cut.behind, List.tail_cons,
    hclass]

end Registry

/-- References through an alias lead to the right file: where a source of a file has a line that binds a
name to a relative import of another file, and no import call behind the line binds that name again, a
reference behind the name stands for the class of the other file, whatever is in front of the line and
behind it, and in whatever order the sources are taken in. If the other file has no such class, or is not
registered, the reference stands for none. -/
theorem resolve?_of_importLine (strict : Bool) {sources : List (Text × Text)}
    {file target imported name front back : Text} (hdistinct : (sources.map Prod.fst).Nodup)
    (himport : RelativeImport file target imported) (hreserved : imported ∉ reservedModules)
    (hname : isAliasName name = true) (hfront : ∀ c ∈ front.getLast?, c = '\n')
    (hlater : ∀ call ∈ importCalls back, call.alias? ≠ some name)
    (hsource : (file, front ++ (importLine name imported ++ back)) ∈ sources) {className : Text}
    (hclass : className.trim = className) :
    (Intake.registerAll strict sources).registry.resolve? (name ++ '.' :: className) file =
      (Intake.registerAll strict sources).registry.class? target className := by
  have hrecord := Intake.file?_registerAll strict hdistinct file
  rw [lookup_of_mem hdistinct hsource, Option.map_some] at hrecord
  have hquote : '"' ∉ imported := himport.not_mem (by decide) (by decide)
  have hclosing : ')' ∉ imported := himport.not_mem (by decide) (by decide)
  apply Registry.resolve?_qualified hrecord ?_ hname hclass
  rw [FileRecord.aliases_ofSource, path?_of_importLine hfront hname hquote hclosing hreserved hlater,
    himport.resolve_eq]

/-- A file in a folder with an import in front of the one of its parent's file and one behind it, taken in
before that file. -/
def besideFolder : List (Text × Text) :=
  [("game/heir".toList, "const std = @import(\"std\");\n".toList ++
      (importLine "b".toList "../base".toList ++ "\nconst c = @import(\"cape\");\n".toList)),
    ("base".toList, baseSource)]

/-- The reference of the heir to its parent leads to the class in the file above its folder, and there is
one. -/
theorem resolve?_of_importLine_heir :
    (Intake.registerAll true besideFolder).registry.resolve? ("b".toList ++ '.' :: "Base".toList)
        "game/heir".toList =
      (Intake.registerAll true besideFolder).registry.class? "base".toList "Base".toList ∧
    ((Intake.registerAll true besideFolder).registry.class? "base".toList "Base".toList).isSome := by
  have hnames : ∀ name ∈ ["game".toList, "heir".toList, "base".toList], SourcePath.IsName name :=
    List.forall_mem_cons.2 ⟨by decide, List.forall_mem_cons.2
      ⟨by decide, List.forall_mem_singleton.2 (by decide)⟩⟩
  have himport : RelativeImport "game/heir".toList "base".toList "../base".toList := by
    have hfile : SourcePath.join ([] ++ ["game".toList] ++ ["heir".toList]) = "game/heir".toList := by
      decide
    have htarget : SourcePath.join ([] ++ ["base".toList]) = "base".toList := by decide
    have himported : SourcePath.relative false ["game".toList].length ["base".toList] =
        "../base".toList := by decide
    rw [← hfile, ← htarget, ← himported]
    exact .intro hnames false
  have hlast : "const std = @import(\"std\");\n".toList.getLast? = some '\n' := by decide
  constructor
  · refine resolve?_of_importLine true (by decide) himport (by decide) (by decide) (fun c hc => ?_)
      (by decide +kernel) List.mem_cons_self (by decide)
    rw [hlast] at hc
    exact (Option.some.inj hc).symm
  · decide +kernel

end ClassFlattening
