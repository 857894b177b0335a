import ClassFlattening.Proofs.Registered

/-!
# How declarations lie in a source

A source is laid out in slices: each is the text in front of a declaration, back to the declaration
before, and the text of the declaration itself. `Placed` says that the spans of the classes are where
the slices put them, so the slices cover the source without overlap, in increasing order. The classes
that a scan declares lie so, however many share a line and whatever malformed sites stand in between.
Leaving out some of them only joins their text to the gap behind, so the classes that are registered lie
so as well.
-/

namespace ClassFlattening

/-- A stretch of a source that ends with a declaration. -/
structure Slice where
  /-- The text in front of the declaration. -/
  gap : Text
  /-- The text of the declaration. -/
  statement : Text
  declared : Class

namespace Slice

/-- The text that slices make up. -/
def whole (slices : List Slice) : Text := slices.flatMap fun s => s.gap ++ s.statement

/-- The spans of the declared classes are those of the statements, where the first slice starts at an
offset and each other one where the one before stops. No statement is empty. -/
def Placed : Nat → List Slice → Prop
  | _, [] => True
  | offset, s :: rest =>
    s.statement ≠ [] ∧
      s.declared.span = ⟨offset + s.gap.size, offset + s.gap.size + s.statement.size⟩ ∧
      Placed (offset + s.gap.size + s.statement.size) rest

@[simp] theorem whole_nil : whole [] = [] := rfl

@[simp] theorem whole_cons (s : Slice) (rest : List Slice) :
    whole (s :: rest) = s.gap ++ (s.statement ++ whole rest) := by
  rw [whole, List.flatMap_cons, List.append_assoc, ← whole]

/-- A placed class starts at or behind the offset from which it is placed. -/
theorem Placed.le_start {offset : Nat} {slices : List Slice} (h : Placed offset slices) :
    ∀ s ∈ slices, offset ≤ s.declared.span.start := by
  induction slices generalizing offset with
  | nil => simp
  | cons s rest ih =>
    obtain ⟨-, hspan, hrest⟩ := h
    intro t ht
    rcases List.mem_cons.1 ht with rfl | ht
    · rw [hspan]
      exact Nat.le_add_right _ _
    · have hstart := ih hrest t ht
      omega

/-- Placed classes stand in the order of their starts. -/
theorem Placed.pairwise {offset : Nat} {slices : List Slice} (h : Placed offset slices) :
    (slices.map declared).Pairwise fun c d => c.span.start ≤ d.span.start := by
  induction slices generalizing offset with
  | nil => exact .nil
  | cons s rest ih =>
    obtain ⟨-, hspan, hrest⟩ := h
    rw [List.map_cons, List.pairwise_cons]
    constructor
    · intro c hc
      obtain ⟨t, ht, rfl⟩ := List.mem_map.1 hc
      have hstart := hrest.le_start t ht
      rw [hspan]
      dsimp only
      omega
    · exact ih hrest

/-- Some of the classes of placed slices are placed too, with what is left out joined to the gaps. -/
theorem Placed.exists_sublist {offset : Nat} {slices : List Slice} {classes : List Class}
    (lead tail : Text) (h : Placed (offset + lead.size) slices)
    (hsub : classes.Sublist (slices.map declared)) :
    ∃ kept rest, kept.map declared = classes ∧ Placed offset kept ∧
      whole kept ++ rest = lead ++ (whole slices ++ tail) := by
  induction slices generalizing offset classes lead with
  | nil =>
    rw [List.map_nil, List.sublist_nil] at hsub
    exact ⟨[], lead ++ tail, hsub.symm, trivial, rfl⟩
  | cons s slices ih =>
    obtain ⟨hne, hspan, hrest⟩ := h
    cases hsub with
    | cons _ hsub =>
      have hplaced : Placed (offset + (lead ++ s.gap ++ s.statement).size) slices := by
        rw [Text.size_append, Text.size_append, ← Nat.add_assoc, ← Nat.add_assoc]
        exact hrest
      obtain ⟨kept, rest, hkept, hplaced, hwhole⟩ := ih (lead ++ s.gap ++ s.statement) hplaced hsub
      refine ⟨kept, rest, hkept, hplaced, ?_⟩
      rw [hwhole, whole_cons]
      simp only [List.append_assoc]
    | @cons_cons classes _ _ hsub =>
      obtain ⟨kept, rest, hkept, hplaced, hwhole⟩ := ih [] hrest hsub
      refine ⟨⟨lead ++ s.gap, s.statement, s.declared⟩ :: kept, rest, ?_, ⟨hne, ?_, ?_⟩, ?_⟩
      · rw [List.map_cons, hkept]
      · rw [hspan, Text.size_append, Nat.add_assoc]
      · rw [Text.size_append, ← Nat.add_assoc]
        exact hplaced
      · rw [whole_cons, whole_cons]
        simp only [List.append_assoc, hwhole, List.nil_append]

end Slice

/-- The classes that a scan declares are placed in the source. The text in front of the scan ends with a
declaration, if any, and what was passed since then. -/
theorem exists_slices_of_scanSteps {file : Text} {front : Front} {rest : Text}
    {findings : List Finding} (h : ScanSteps file front rest findings) (done gap : Text)
    (hdone : EndsStatement done) (hfront : front.text = done ++ gap) :
    ∃ slices tail, slices.map Slice.declared = findings.filterMap Finding.class? ∧
      Slice.Placed done.size slices ∧ Slice.whole slices ++ tail = gap ++ rest := by
  induction h generalizing done gap with
  | finished => exact ⟨[], _, rfl, trivial, rfl⟩
  | @malformed front rest cut findings hcut _ _ ih =>
    obtain ⟨slices, tail, hdeclared, hplaced, hwhole⟩ :=
      ih done (gap ++ cut.through) hdone (by simp [hfront, Cut.through])
    refine ⟨slices, tail, hdeclared, hplaced, ?_⟩
    rw [hwhole, List.append_assoc, cut.through_append_behind, Text.whole_of_cutWhere _ hcut]
  | @declared front rest cut site c findings hcut hsome _ ih =>
    obtain ⟨hread, hclass⟩ := declaredAt?_eq_some_iff.1 hsome
    have hhere : (front.push cut.before).text = done ++ (gap ++ cut.before) := by
      rw [Front.text_push, hfront, List.append_assoc]
    obtain ⟨hlead, -⟩ := Site.pieces_of_read? hread
    -- The statement in front of the marker cannot reach back over the end of the last declaration.
    obtain ⟨left, hleft, -⟩ := Front.popStatement_stops hdone hhere
    rw [← hlead] at hleft
    have hthrough : site.through.text = done ++ (left ++ site.statement) := by
      rw [Site.text_through, hleft, List.append_assoc]
    obtain ⟨slices, tail, hdeclared, hplaced, hwhole⟩ :=
      ih site.through.text [] (Site.endsStatement_of_read? hread) (List.append_nil _).symm
    rw [hthrough, Text.size_append, Text.size_append, ← Nat.add_assoc] at hplaced
    refine ⟨⟨left, site.statement, c⟩ :: slices, tail, ?_, ⟨site.statement_ne_nil, ?_, hplaced⟩, ?_⟩
    · change c :: slices.map Slice.declared = c :: findings.filterMap Finding.class?
      rw [hdeclared]
    · rw [Site.span_of_class? hclass, Site.start, Front.size_eq_size_text, hleft, Text.size_append]
    · have hsource := whole_of_declaredAt? hcut hsome
      rw [hthrough, hfront] at hsource
      simp only [List.append_assoc, List.append_cancel_left_eq] at hsource
      rw [← hsource, Slice.whole_cons]
      simp only [List.append_assoc, hwhole, List.nil_append]

/-- The classes that a scan of a source declares are placed in it. -/
theorem exists_slices_of_scan (file source : Text) :
    ∃ slices tail, slices.map Slice.declared = (scan file source).filterMap Finding.class? ∧
      Slice.Placed 0 slices ∧ Slice.whole slices ++ tail = source :=
  exists_slices_of_scanSteps (scanSteps_scanFrom file .empty source) [] [] (by simp [EndsStatement])
    rfl

/-- The classes of the record that is made of a source are placed in the source. -/
theorem exists_slices_of_ofSource (strict : Bool) (file source : Text) :
    ∃ slices tail, slices.map Slice.declared = (FileRecord.ofSource strict file source).classes ∧
      Slice.Placed 0 slices ∧ Slice.whole slices ++ tail = source := by
  let empty : FileRecord := { path := file, aliases := importAliases file source, source }
  obtain ⟨slices, tail, hdeclared, hplaced, hwhole⟩ := exists_slices_of_scan file source
  obtain ⟨kept, hkept, hsub⟩ := empty.exists_kept_of_addAll (Finding.taken strict (scan file source))
  have hsub := hsub.trans (Finding.taken_sublist strict _)
  rw [← hdeclared] at hsub
  obtain ⟨slices', tail', hdeclared', hplaced', hwhole'⟩ :=
    Slice.Placed.exists_sublist [] tail hplaced hsub
  refine ⟨slices', tail', ?_, hplaced', hwhole'.trans hwhole⟩
  rw [hdeclared', FileRecord.ofSource, hkept, List.nil_append]

/-- The classes that an intake registers for a file are placed in its source. -/
theorem exists_slices_of_register (intake : Intake) (strict : Bool) (file source : Text) :
    ∃ record slices tail,
      (intake.register strict file source).1.registry.file? file = some record ∧
        record.path = file ∧ record.source = source ∧
        slices.map Slice.declared = record.classes ∧ Slice.Placed 0 slices ∧
        Slice.whole slices ++ tail = source := by
  obtain ⟨slices, tail, hdeclared, hplaced, hwhole⟩ := exists_slices_of_ofSource strict file source
  refine ⟨.ofSource strict file source, slices, tail, ?_, FileRecord.path_ofSource ..,
    FileRecord.source_ofSource .., hdeclared, hplaced, hwhole⟩
  rw [Intake.file?_register, if_pos rfl]

end ClassFlattening
