import ClassFlattening.Rendering
import ClassFlattening.Proofs.Checks
import ClassFlattening.Proofs.Slices
import ClassFlattening.Proofs.SourceLayout
import Mathlib.Data.List.Forall2

/-!
# What a rendered file is made of

Rendering walks along the source by byte offsets. Over placed slices every cut it makes falls between a
gap and a declaration, so no cut can fail, and each step copies one gap and puts one flattened class
behind it. The rendered file is the header, then the slices with each declaration replaced, then the
text behind the last one, so that all of the source outside of the declarations is copied once and in
its order, except the imports of the runtime module.
-/

namespace ClassFlattening

/-- The slices with each declaration replaced by a text, and without the imports of the runtime module
in the gaps. -/
def splice (slices : List Slice) (texts : List Text) : Text :=
  (slices.zip texts).flatMap fun (s, t) => withoutRuntimeImports s.gap ++ t

/-- The first slice comes first, with its text. -/
theorem splice_cons (s : Slice) (slices : List Slice) (t : Text) (texts : List Text) (tail : Text) :
    splice (s :: slices) (t :: texts) ++ tail =
      withoutRuntimeImports s.gap ++ t ++ (splice slices texts ++ tail) := by
  rw [splice, List.zip_cons_cons, List.flatMap_cons, ← splice, List.append_assoc]

/-- One step of rendering copies the gap in front of a placed class, and goes on behind the class. -/
theorem renderFrom_slice (settings : Settings) (registry : Registry) (path source : Text)
    {offset : Nat} {s : Slice} {slices : List Slice} (hplaced : Slice.Placed offset (s :: slices))
    (rest : Text) (classes : List Class) :
    renderFrom settings registry path source offset (some (s.gap ++ (s.statement ++ rest)))
        (s.declared :: classes) = do
      let flat ← s.declared.generate settings path registry
      let tail ← renderFrom settings registry path source (offset + s.gap.size + s.statement.size)
        (some rest) classes
      return withoutRuntimeImports s.gap ++ flat ++ tail := by
  obtain ⟨-, hspan, -⟩ := hplaced
  have hgap : (s.gap ++ (s.statement ++ rest)).cutAt? (s.declared.span.start - offset) =
      some ⟨s.gap, s.statement ++ rest⟩ := by
    rw [hspan]
    dsimp only
    rw [Nat.add_sub_cancel_left, Text.cutAt?_append]
  have hbehind : behindSpan? source s.declared.span (s.statement ++ rest) = some rest := by
    rw [behindSpan?, hspan, if_pos (Nat.le_add_right _ _)]
    dsimp only
    rw [Nat.add_sub_cancel_left, Text.cutAt?_append]
    rfl
  have hstart : offset ≤ s.declared.span.start := by
    rw [hspan]
    exact Nat.le_add_right _ _
  rw [renderFrom, Option.bind_some, if_pos hstart, hgap]
  dsimp only
  rw [hbehind, hspan]

/-- Rendering placed classes succeeds just when each of them can be generated, and then gives the
slices with what is generated. -/
theorem renderFrom_slices (settings : Settings) (registry : Registry) (path source tail out : Text)
    {offset : Nat} {slices : List Slice} (hplaced : Slice.Placed offset slices) :
    renderFrom settings registry path source offset (some (Slice.whole slices ++ tail))
        (slices.map Slice.declared) = .ok out ↔
      ∃ texts, List.Forall₂ (fun s t => s.declared.generate settings path registry = .ok t) slices
        texts ∧ out = splice slices texts ++ withoutRuntimeImports tail := by
  induction slices generalizing offset out with
  | nil =>
    rw [Slice.whole_nil, List.nil_append, List.map_nil, renderFrom]
    constructor
    · intro h
      cases h
      exact ⟨[], .nil, rfl⟩
    · rintro ⟨texts, htexts, rfl⟩
      cases htexts
      rfl
  | cons s slices ih =>
    have hrest := fun rendered => ih rendered hplaced.2.2
    rw [Slice.whole_cons, List.map_cons, List.append_assoc, List.append_assoc,
      renderFrom_slice settings registry path source hplaced]
    constructor
    · intro h
      obtain ⟨flat, hflat, h⟩ := bind_eq_ok_iff.1 h
      obtain ⟨rendered, hrendered, h⟩ := bind_eq_ok_iff.1 h
      cases h
      obtain ⟨texts, htexts, rfl⟩ := (hrest rendered).1 hrendered
      exact ⟨flat :: texts, .cons hflat htexts, (splice_cons ..).symm⟩
    · rintro ⟨texts, htexts, rfl⟩
      cases htexts with
      | @cons _ flat _ texts hflat htexts =>
        refine bind_eq_ok_iff.2 ⟨flat, hflat, bind_eq_ok_iff.2
          ⟨_, (hrest _).2 ⟨texts, htexts, rfl⟩, ?_⟩⟩
        rw [splice_cons]
        rfl

/-- Rendering placed classes fails with what one of them is refused with. -/
theorem exists_generate_of_renderFrom (settings : Settings) (registry : Registry) (path source tail : Text)
    {offset : Nat} {slices : List Slice} (hplaced : Slice.Placed offset slices) {fault : Fault}
    (h : renderFrom settings registry path source offset (some (Slice.whole slices ++ tail))
      (slices.map Slice.declared) = .error fault) :
    ∃ s ∈ slices, s.declared.generate settings path registry = .error fault := by
  induction slices generalizing offset with
  | nil => cases h
  | cons s slices ih =>
    rw [Slice.whole_cons, List.map_cons, List.append_assoc, List.append_assoc,
      renderFrom_slice settings registry path source hplaced] at h
    obtain hflat | ⟨flat, -, h⟩ := bind_eq_error_iff.1 h
    · exact ⟨s, List.mem_cons_self, hflat⟩
    · obtain hrest | ⟨rendered, -, h⟩ := bind_eq_error_iff.1 h
      · obtain ⟨t, ht, hrefused⟩ := ih hplaced.2.2 hrest
        exact ⟨t, List.mem_cons_of_mem _ ht, hrefused⟩
      · cases h

/-- Placed classes are sorted already. -/
theorem Slice.Placed.sortBy_eq {offset : Nat} {slices : List Slice} (h : Slice.Placed offset slices) :
    sortBy (fun c d => c.span.start ≤ d.span.start) (slices.map Slice.declared) =
      slices.map Slice.declared :=
  sortBy_of_pairwise (h.pairwise.imp decide_eq_true)

section Placed

variable (settings : Settings) (registry : Registry) {record : FileRecord} {slices : List Slice}
  {tail : Text} (hdeclared : slices.map Slice.declared = record.classes)
  (hplaced : Slice.Placed 0 slices) (hsource : Slice.whole slices ++ tail = record.source)
include hdeclared hplaced hsource

/-- A file whose classes are placed is refused with what one of its classes is refused with. -/
theorem exists_generate_of_render {fault : Fault} (h : render settings registry record = .error fault) :
    ∃ c ∈ record.classes, c.generate settings record.path registry = .error fault := by
  rw [render, ← hdeclared, hplaced.sortBy_eq, ← hsource] at h
  cases hbody : renderFrom settings registry record.path (Slice.whole slices ++ tail) 0
      (some (Slice.whole slices ++ tail)) (slices.map Slice.declared) with
  | ok body =>
    rw [hbody] at h
    cases h
  | error other =>
    rw [hbody] at h
    cases h
    obtain ⟨s, hs, hrefused⟩ := exists_generate_of_renderFrom settings registry _ _ tail hplaced hbody
    exact ⟨s.declared, hdeclared ▸ List.mem_map_of_mem hs, hrefused⟩

/-- A file whose classes are placed is rendered as its slices with what is generated for the classes. -/
theorem exists_structs_of_render {out : Text} (h : render settings registry record = .ok out) :
    ∃ structs,
      List.Forall₂ (fun s t => s.declared.generate settings record.path registry = .ok t) slices structs ∧
        out = fileHeader ++ (splice slices structs ++ withoutRuntimeImports tail) := by
  rw [render, ← hdeclared, hplaced.sortBy_eq, ← hsource] at h
  obtain ⟨body, hbody, rfl⟩ := map_eq_ok_iff.1 h
  obtain ⟨structs, hstructs, rfl⟩ :=
    (renderFrom_slices settings registry record.path _ tail body hplaced).1 hbody
  exact ⟨structs, hstructs, rfl⟩

end Placed

/-- A lenient intake registers a source so that its classes lie in slices that cover it, in increasing
order. The file renders just when each class can be generated, and the result is then the header, the
slices with each declaration replaced by what is generated for it and no imports of the runtime module
in the gaps, and what is behind the last declaration, without such imports as well. -/
theorem render_of_register_lenient (intake : Intake) (file source : Text) :
    (intake.register false file source).2 = none ∧
      ∃ record slices tail,
        (intake.register false file source).1.registry.file? file = some record ∧
          slices.map Slice.declared = record.classes ∧ Slice.Placed 0 slices ∧
          Slice.whole slices ++ tail = source ∧
          ∀ (settings : Settings) (registry : Registry) (out : Text),
            render settings registry record = .ok out ↔
              ∃ texts, List.Forall₂ (fun s t => s.declared.generate settings file registry = .ok t)
                slices texts ∧
                out = fileHeader ++ (splice slices texts ++ withoutRuntimeImports tail) := by
  obtain ⟨record, slices, tail, hrecord, rfl, rfl, hdeclared, hplaced, hwhole⟩ :=
    exists_slices_of_register intake false file source
  refine ⟨(intake.register_lenient _ _).1, record, slices, tail, hrecord, hdeclared, hplaced, hwhole, ?_⟩
  intro settings registry out
  have hsorted : sortBy (fun c d => c.span.start ≤ d.span.start) record.classes =
      slices.map Slice.declared := by
    rw [← hdeclared]
    exact sortBy_of_pairwise (hplaced.pairwise.imp decide_eq_true)
  have hrendered := fun rendered => renderFrom_slices settings registry record.path record.source tail
    rendered hplaced
  rw [hwhole] at hrendered
  rw [render, hsorted, map_eq_ok_iff]
  constructor
  · rintro ⟨body, hbody, rfl⟩
    obtain ⟨texts, htexts, rfl⟩ := (hrendered body).1 hbody
    exact ⟨texts, htexts, rfl⟩
  · rintro ⟨texts, htexts, rfl⟩
    exact ⟨_, (hrendered _).2 ⟨texts, htexts, rfl⟩, rfl⟩

end ClassFlattening
