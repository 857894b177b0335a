import ClassFlattening.Proofs.ImportLines
import ClassFlattening.Proofs.RenderedSource

/-!
# What is copied of a source

What is copied of a source are the gaps between its placed declarations, without the lines that import the
runtime module. A text occurs in a gap exactly if it occurs in the source apart from the spans of all
declarations. A text on one line of a gap is left unless it lies on the lines of such an import, and it is
rendered at its place: in its gap, behind what is generated for the declarations in front of the gap.
-/

namespace ClassFlattening

namespace Text

/-- A pattern is contained in a text exactly if it occurs in it. -/
theorem contains_iff {t pattern : Text} (hne : pattern ≠ []) :
    t.contains pattern = true ↔ ∃ before after, t = before ++ (pattern ++ after) := by
  rw [contains, Option.isSome_iff_exists]
  constructor
  · rintro ⟨cut, hcut⟩
    obtain ⟨after, hafter⟩ := exists_of_cutAtText? hcut
    refine ⟨cut.before, after, ?_⟩
    rw [← hafter, ← Cut.whole, whole_of_cutWhere _ hcut]
  · rintro ⟨before, after, rfl⟩
    obtain ⟨cut, hcut, -⟩ := exists_cutAtText?_of_occurs hne before after
    rw [List.append_assoc] at hcut
    exact ⟨cut, hcut⟩

/-- Of two fronts of a text the smaller one is a front of the other. -/
theorem prefix_of_size_le {s s' t t' : Text} (h : s ++ t = s' ++ t') (hsize : s.size ≤ s'.size) :
    ∃ gap, s' = s ++ gap ∧ t = gap ++ t' := by
  rcases List.append_eq_append_iff.1 h with ⟨gap, rfl, rfl⟩ | ⟨gap, rfl, rfl⟩
  · exact ⟨gap, rfl, rfl⟩
  · cases gap with
    | nil => exact ⟨[], by simp, rfl⟩
    | cons c gap =>
      rw [size_append, size_cons] at hsize
      have hpos := c.utf8Size_pos
      omega

end Text

namespace Slice

/-- The texts between declarations, the one behind the last declaration included. -/
def gaps (slices : List Slice) (tail : Text) : List Text := slices.map gap ++ [tail]

/-- The gap in front of the first of some slices, or the text behind all slices. -/
def nextGap (tail : Text) : List Slice → Text
  | [] => tail
  | s :: _ => s.gap

theorem nextGap_mem_gaps (tail : Text) (passed ahead : List Slice) :
    nextGap tail ahead ∈ gaps (passed ++ ahead) tail := by
  cases ahead <;> simp [nextGap, gaps]

/-- A range of offsets lies apart from the spans of declarations. -/
def Apart (slices : List Slice) (start stop : Nat) : Prop :=
  ∀ s ∈ slices, stop ≤ s.declared.span.start ∨ s.declared.span.stop ≤ start

section Occurs

variable {offset : Nat} {slices : List Slice} {tail pattern : Text}

/-- What occurs in a gap occurs in the source apart from all declarations. -/
theorem Placed.apart_of_occurs_in_gap (hplaced : Placed offset slices) {before after : Text}
    (hgap : before ++ (pattern ++ after) ∈ gaps slices tail) :
    ∃ front back, whole slices ++ tail = front ++ (pattern ++ back) ∧
      Apart slices (offset + front.size) (offset + front.size + pattern.size) := by
  induction slices generalizing offset with
  | nil =>
    obtain rfl := List.mem_singleton.1 hgap
    exact ⟨before, after, rfl, by simp [Apart]⟩
  | cons s slices ih =>
    obtain ⟨-, hspan, hrest⟩ := hplaced
    rcases List.mem_cons.1 hgap with hgap | hgap
    · -- Behind the gap come its own declaration and all others.
      refine ⟨before, after ++ (s.statement ++ whole slices ++ tail), ?_, fun t ht => Or.inl ?_⟩
      · rw [whole_cons, ← hgap]
        simp
      · have hsize := congrArg Text.size hgap
        simp only [Text.size_append] at hsize
        rcases List.mem_cons.1 ht with rfl | ht
        · rw [hspan]
          dsimp only
          omega
        · have hstart := hrest.le_start t ht
          omega
    · obtain ⟨front, back, hwhole, hapart⟩ := ih hrest hgap
      have hoffset : offset + (s.gap ++ (s.statement ++ front)).size =
          offset + s.gap.size + s.statement.size + front.size := by
        rw [Text.size_append, Text.size_append]
        omega
      refine ⟨s.gap ++ (s.statement ++ front), back, ?_, ?_⟩
      · rw [whole_cons, List.append_assoc, List.append_assoc, hwhole]
        simp
      · rw [hoffset]
        refine List.forall_mem_cons.2 ⟨Or.inr ?_, hapart⟩
        rw [hspan]
        exact Nat.le_add_right _ _

/-- What occurs in the source apart from all declarations occurs in the gap behind those that it is behind. -/
theorem Placed.exists_gap_of_apart (hplaced : Placed offset slices) {front back : Text}
    (hwhole : whole slices ++ tail = front ++ (pattern ++ back))
    (hapart : Apart slices (offset + front.size) (offset + front.size + pattern.size)) :
    ∃ passed ahead before after, slices = passed ++ ahead ∧ front = whole passed ++ before ∧
      nextGap tail ahead = before ++ (pattern ++ after) := by
  induction slices generalizing offset front with
  | nil => exact ⟨[], [], front, back, rfl, rfl, hwhole⟩
  | cons s slices ih =>
    obtain ⟨-, hspan, hrest⟩ := hplaced
    obtain ⟨hfirst, hothers⟩ := List.forall_mem_cons.1 hapart
    rw [whole_cons] at hwhole
    rw [hspan] at hfirst
    dsimp only at hfirst
    rcases hfirst with hfirst | hfirst
    · have hsplit : (front ++ pattern) ++ back = s.gap ++ (s.statement ++ whole slices ++ tail) := by
        rw [List.append_assoc, ← hwhole, List.append_assoc]
      obtain ⟨after, hgap, -⟩ := Text.prefix_of_size_le hsplit (by rw [Text.size_append]; omega)
      exact ⟨[], s :: slices, front, after, rfl, rfl, by rw [nextGap, hgap, List.append_assoc]⟩
    · have hsplit : (s.gap ++ s.statement) ++ (whole slices ++ tail) = front ++ (pattern ++ back) := by
        rw [← hwhole]
        simp
      obtain ⟨left, rfl, hleft⟩ := Text.prefix_of_size_le hsplit (by rw [Text.size_append]; omega)
      have hoffset : offset + (s.gap ++ s.statement ++ left).size =
          offset + s.gap.size + s.statement.size + left.size := by
        rw [Text.size_append, Text.size_append]
        omega
      rw [hoffset] at hothers
      obtain ⟨passed, ahead, before, after, rfl, rfl, hgap⟩ := ih hrest hleft hothers
      refine ⟨s :: passed, ahead, before, after, rfl, ?_, hgap⟩
      rw [whole_cons, List.append_assoc, List.append_assoc, List.append_assoc]

/-- A pattern is contained in a gap exactly if it occurs in the source apart from all declarations. -/
theorem Placed.exists_gap_contains_iff (hplaced : Placed 0 slices) (hne : pattern ≠ []) :
    (∃ gap ∈ gaps slices tail, gap.contains pattern = true) ↔
      ∃ front back, whole slices ++ tail = front ++ (pattern ++ back) ∧
        Apart slices front.size (front.size + pattern.size) := by
  constructor
  · rintro ⟨gap, hgap, hcontains⟩
    obtain ⟨before, after, rfl⟩ := (Text.contains_iff hne).1 hcontains
    obtain ⟨front, back, hwhole, hapart⟩ := hplaced.apart_of_occurs_in_gap hgap
    rw [Nat.zero_add] at hapart
    exact ⟨front, back, hwhole, hapart⟩
  · rintro ⟨front, back, hwhole, hapart⟩
    obtain ⟨passed, ahead, before, after, rfl, -, hgap⟩ :=
      hplaced.exists_gap_of_apart hwhole (by rwa [Nat.zero_add])
    exact ⟨_, nextGap_mem_gaps tail passed ahead, (Text.contains_iff hne).2 ⟨before, after, hgap⟩⟩

/-- What is left of the gap behind some slices stands behind these slices and their texts. -/
theorem exists_splice_append {passed ahead : List Slice} {structs : List Text} (tail : Text)
    (hlength : (passed ++ ahead).length = structs.length) :
    ∃ rest, splice (passed ++ ahead) structs ++ withoutRuntimeImports tail =
      splice passed (structs.take passed.length) ++ (withoutRuntimeImports (nextGap tail ahead) ++ rest) := by
  induction passed generalizing structs with
  | nil =>
    cases ahead with
    | nil => exact ⟨[], by rw [List.append_nil, List.append_nil]; rfl⟩
    | cons s ahead =>
      cases structs with
      | nil => cases hlength
      | cons t structs =>
        refine ⟨t ++ (splice ahead structs ++ withoutRuntimeImports tail), ?_⟩
        rw [List.nil_append, splice_cons, List.append_assoc]
        rfl
  | cons s passed ih =>
    cases structs with
    | nil => cases hlength
    | cons t structs =>
      obtain ⟨rest, hrest⟩ := ih (Nat.succ.inj hlength)
      exact ⟨rest, by rw [List.cons_append, splice_cons, hrest, List.length_cons, List.take_succ_cons, splice_cons]⟩

/-- A part of a source, behind a text, is copied at its place into what is rendered of the source. It lies
in the gap behind the declarations that the text in front of it passes. Unless it lies on the lines there
that import the runtime module, it is rendered behind what is generated for these declarations, between what
is left of the gap in front of it and what is left of the gap behind it. -/
def CopiedInto (settings : Settings) (registry : Registry) (file : Text) (slices : List Slice)
    (tail out front piece : Text) : Prop :=
  ∃ passed ahead before after,
    slices = passed ++ ahead ∧ front = whole passed ++ before ∧
      nextGap tail ahead = before ++ (piece ++ after) ∧
      (LiesOnImportLines before piece after ∨
        ∃ structs rest,
          List.Forall₂ (fun s t => s.declared.generate settings file registry = .ok t) passed structs ∧
          out = fileHeader ++ (splice passed structs ++
            (withoutRuntimeImports before ++ (piece ++ withoutRuntimeImports after) ++ rest)))

/-- A text on one line that occurs in a source apart from all declarations is copied at its place. -/
theorem Placed.copiedInto_of_apart (hplaced : Placed 0 slices) {front back : Text}
    (hwhole : whole slices ++ tail = front ++ (pattern ++ back))
    (hapart : Apart slices front.size (front.size + pattern.size)) (hnewline : '\n' ∉ pattern)
    (hne : pattern ≠ []) {settings : Settings} {registry : Registry} {file : Text} {structs : List Text}
    (hstructs : List.Forall₂ (fun s t => s.declared.generate settings file registry = .ok t) slices structs) :
    CopiedInto settings registry file slices tail
      (fileHeader ++ (splice slices structs ++ withoutRuntimeImports tail)) front pattern := by
  obtain ⟨passed, ahead, before, after, rfl, rfl, hgap⟩ :=
    hplaced.exists_gap_of_apart hwhole (by rwa [Nat.zero_add])
  refine ⟨passed, ahead, before, after, rfl, rfl, hgap, ?_⟩
  rcases withoutRuntimeImports_beside hnewline hne hgap with hleft | hlies
  · obtain ⟨rest, hrest⟩ := exists_splice_append tail hstructs.length_eq
    have hpassed := List.forall₂_take passed.length hstructs
    rw [List.take_left] at hpassed
    exact Or.inr ⟨_, rest, hpassed, by rw [hrest, hleft]⟩
  · exact Or.inl hlies

end Occurs

end Slice

/-- How the classes that are registered of a source lie in it. -/
structure IsLayout (strict : Bool) (file : Text × Text) (slices : List Slice) (tail : Text) : Prop where
  declared : slices.map Slice.declared = (FileRecord.ofSource strict file.1 file.2).classes
  placed : Slice.Placed 0 slices
  whole : Slice.whole slices ++ tail = file.2

end ClassFlattening
