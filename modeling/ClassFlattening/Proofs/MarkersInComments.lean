import ClassFlattening.Proofs.CopiedGaps
import ClassFlattening.Proofs.GenerationOutcome
import ClassFlattening.Proofs.MarkersAccounted
import ClassFlattening.Proofs.RenamedRegions

/-!
# Markers that are no code

A scan looks for the text of the marker, wherever it stands. A marker in a comment or a literal therefore
declares a class exactly as any other does: if the scan has not passed it within a declaration in front of
it, its own line binds a name in front of it, and a body and a terminator follow. If not, nothing is
declared; and of a comment or a literal that lies apart from all registered declarations each part on one
line is copied as it is, unless a line that imports the runtime module is left out with it.
-/

namespace ClassFlattening

/-- Whether a text in front of a marker binds a name: its last `const` is followed by one and a sign of
equality. -/
def bindsName (header : Text) : Bool :=
  match header.cutAtLastWord? "const".toList with
  | some binding =>
    match Text.cutAtFirst? (· == '=') (binding.after.drop 5) with
    | some bound => !bound.before.trim.isEmpty
    | none => false
  | none => false

/-- Whether a text behind a marker goes on as a declaration: its first brace is closed, and a terminator
follows. -/
def hasBody (after : Text) : Bool :=
  match after.cutAtFirst? (· == '{') with
  | some opened =>
    match opened.after.cutAtMatching? '{' '}' with
    | some closed => closed.behind.contains terminator
    | none => false
  | none => false

/-- A site declares a class exactly if its header binds a name. -/
theorem isSome_class?_iff (site : Site) (file : Text) :
    (site.class? file).isSome = bindsName site.header := by
  rw [Site.class?, bindsName]
  cases site.header.cutAtLastWord? "const".toList with
  | none => rfl
  | some binding =>
    cases hbound : Text.cutAtFirst? (· == '=') (binding.after.drop 5) with
    | none => simp [hbound]
    | some bound =>
      cases hname : bound.before.trim with
      | nil => simp [hbound, hname]
      | cons c name => simp [hbound, hname]

/-- A site is read behind a marker exactly if the text goes on as a declaration. -/
theorem isSome_read?_iff (front : Front) (call after : Text) :
    (Site.read? front call after).isSome = hasBody after := by
  rw [Site.read?, hasBody]
  cases after.cutAtFirst? (· == '{') with
  | none => rfl
  | some opened =>
    cases hclosed : opened.after.cutAtMatching? '{' '}' with
    | none => simp [hclosed]
    | some closed =>
      cases hended : closed.behind.cutAtText? terminator with
      | none => simp [hclosed, hended, Text.contains]
      | some ended => simp [hclosed, hended, Text.contains]

/-- A marker declares a class exactly if the statement in front of it binds a name and the text behind it
goes on as a declaration. -/
theorem exists_declaredAt?_iff (file : Text) (front : Front) (after : Text) :
    (∃ site c, declaredAt? file front (marker ++ after) = some (site, c)) ↔
      bindsName front.popStatement.2 = true ∧ hasBody after = true := by
  simp only [declaredAt?_eq_some_iff, List.drop_left]
  constructor
  · rintro ⟨site, c, hread, hclass⟩
    obtain ⟨-, hheader, -⟩ := Site.pieces_of_read? hread
    rw [← hheader, ← isSome_class?_iff site file, hclass, ← isSome_read?_iff front marker, hread]
    exact ⟨rfl, rfl⟩
  · rintro ⟨hbinds, hbody⟩
    rw [← isSome_read?_iff front marker, Option.isSome_iff_exists] at hbody
    obtain ⟨site, hread⟩ := hbody
    obtain ⟨-, hheader, -⟩ := Site.pieces_of_read? hread
    rw [← hheader, ← isSome_class?_iff site file, Option.isSome_iff_exists] at hbinds
    obtain ⟨c, hclass⟩ := hbinds
    exact ⟨site, c, hread, hclass⟩

/-- An offset lies in a declaration behind its marker, so the scan passes it with the declaration. -/
def PassedInDeclaration (file source : Text) (offset : Nat) : Prop :=
  ∃ site c, .declared site c ∈ outcomes file source ∧ site.markerOffset < offset ∧ offset < site.stop

section Occurrence

variable {file before after : Text}

/-- An outcome at a marker is what the texts on both sides of the marker say. -/
theorem eq_ofMarker_of_mem {o : Outcome} (ho : o ∈ outcomes file (before ++ (marker ++ after)))
    (hmarker : o.marker = before.size) : o = .ofMarker file before after := by
  obtain ⟨before', after', hwhole, -, rfl⟩ := exists_occurrence_of_mem ho
  rw [Outcome.marker_ofMarker] at hmarker
  have hsplit : before' ++ (marker ++ after') = before ++ (marker ++ after) := hwhole.symm
  obtain ⟨gap, rfl, hrest⟩ := Text.prefix_of_size_le hsplit (Nat.le_of_eq hmarker)
  obtain rfl : gap = [] := by
    cases gap with
    | nil => rfl
    | cons c gap =>
      have hpos := c.utf8Size_pos
      rw [Text.size_append, Text.size_cons] at hmarker
      omega
  rw [List.append_nil, List.append_cancel_left hrest]

/-- A marker anywhere in a source declares a class exactly if it is not passed in a declaration in front of
it, the statement in front of it binds a name, and the text behind it goes on as a declaration. -/
theorem exists_declared_iff (file before after : Text) :
    (∃ site c, .declared site c ∈ outcomes file (before ++ (marker ++ after)) ∧
        site.markerOffset = before.size) ↔
      ¬ PassedInDeclaration file (before ++ (marker ++ after)) before.size ∧
        bindsName (Front.ofText before).popStatement.2 = true ∧ hasBody after = true := by
  rw [← exists_declaredAt?_iff file]
  constructor
  · rintro ⟨site, c, hsite, hoffset⟩
    refine ⟨?_, site, c, declaredAt?_of_ofMarker (eq_ofMarker_of_mem hsite hoffset)⟩
    rintro ⟨other, d, hother, hlt, hstop⟩
    -- The scan goes on behind a declaration, so none has the marker of another behind its own.
    rcases marker_outside_of_mem hsite hother with h | h
    · rw [Outcome.marker, hoffset] at h
      omega
    · rw [Outcome.marker, hoffset] at h
      omega
  · rintro ⟨hpassed, site, c, hdeclared⟩
    have hwhole : Front.empty.text ++ (before ++ (marker ++ after)) = before ++ (marker ++ after) := rfl
    rcases exists_outcome_or_site file .empty _ hwhole List.nil_prefix with
      ⟨o, ho, hmarker⟩ | ⟨other, d, hother, hinside⟩
    · have heq := eq_ofMarker_of_mem ho hmarker
      rw [Outcome.ofMarker, hdeclared] at heq
      subst heq
      exact ⟨site, c, ho, hmarker⟩
    · exact absurd ⟨other, d, hother,
        Site.between_of_holds_or_swallows (span_and_liesIn_of_mem hother).2 hinside⟩ hpassed

end Occurrence

/-- A part on one line of a text that lies apart from the registered declarations of its source is copied
at its place when the source is rendered. -/
theorem copiedInto_of_render {strict : Bool} {file source : Text} {slices : List Slice} {tail : Text}
    (hlayout : IsLayout strict (file, source) slices tail) {settings : Settings} {registry : Registry}
    {out : Text} (hrender : render settings registry (.ofSource strict file source) = .ok out)
    {front back region before piece after : Text} (hsource : source = front ++ (region ++ back))
    (hapart : Slice.Apart slices front.size (front.size + region.size))
    (hregion : region = before ++ (piece ++ after)) (hnewline : '\n' ∉ piece) (hne : piece ≠ []) :
    Slice.CopiedInto settings registry file slices tail out (front ++ before) piece := by
  obtain ⟨structs, hstructs, rfl⟩ := exists_structs_of_render settings registry hlayout.declared
    hlayout.placed (hlayout.whole.trans (FileRecord.source_ofSource ..).symm) hrender
  rw [FileRecord.path_ofSource] at hstructs
  have hwhole : Slice.whole slices ++ tail = front ++ before ++ (piece ++ (after ++ back)) := by
    rw [hlayout.whole, hsource, hregion]
    simp
  have hapart' : Slice.Apart slices (front ++ before).size ((front ++ before).size + piece.size) := by
    intro s hs
    have hsize := congrArg Text.size hregion
    simp only [Text.size_append] at hsize ⊢
    have hbeside := hapart s hs
    omega
  exact hlayout.placed.copiedInto_of_apart hwhole hapart' hnewline hne hstructs

/-- The text of a row of stretches. -/
def Stretch.texts (stretches : List Stretch) : Text :=
  stretches.flatMap Stretch.text

/-- A marker in a comment or a literal declares a class exactly if it is not passed in a declaration in
front of it, the statement in front of it binds a name, and the text behind it goes on as a declaration.
Where the comment or literal lies apart from the registered declarations, each part of it on one line is
copied at its place when the source is rendered, unless it lies on the lines of an import of the runtime
module. -/
theorem marker_in_skipped {file source : Text} {front back : List Stretch} {left right : Text}
    (h : source.stretches = front ++ .skipped (left ++ (marker ++ right)) :: back) :
    ((∃ site c, .declared site c ∈ outcomes file source ∧
          site.markerOffset = (Stretch.texts front ++ left).size) ↔
        ¬ PassedInDeclaration file source (Stretch.texts front ++ left).size ∧
          bindsName (Front.ofText (Stretch.texts front ++ left)).popStatement.2 = true ∧
          hasBody (right ++ Stretch.texts back) = true) ∧
      ∀ strict settings registry slices tail out, IsLayout strict (file, source) slices tail →
        render settings registry (.ofSource strict file source) = .ok out →
        Slice.Apart slices (Stretch.texts front).size
          ((Stretch.texts front).size + (left ++ (marker ++ right)).size) →
        ∀ before piece after, left ++ (marker ++ right) = before ++ (piece ++ after) → '\n' ∉ piece →
          piece ≠ [] →
          Slice.CopiedInto settings registry file slices tail out (Stretch.texts front ++ before) piece := by
  have hsource : source = Stretch.texts front ++
      ((left ++ (marker ++ right)) ++ Stretch.texts back) := by
    rw [← source.flatMap_stretches, h, List.flatMap_append, List.flatMap_cons]
    rfl
  have hmarker : source = Stretch.texts front ++ left ++
      (marker ++ (right ++ Stretch.texts back)) := by
    rw [hsource]
    simp
  constructor
  · rw [hmarker]
    exact exists_declared_iff file _ _
  · intro strict settings registry slices tail out hlayout hrender hapart before piece after hregion
    exact copiedInto_of_render hlayout hrender hsource hapart hregion

/-- A comment with a marker in front of a class. -/
def remark : Text := "// a zoop.class( call\n".toList ++ classText "A"

/-- The class behind the comment, with the comment as its gap. -/
def remarked : Slice where
  gap := "// a zoop.class( call\n".toList
  statement := (classText "A").dropLast
  declared :=
    { name := "A".toList
      fields := [⟨"x".toList, "u8".toList, none⟩]
      span := ⟨22, 61⟩
      file := [] }

/-- The marker in the comment binds no name, so it declares nothing, and the comment is copied. -/
theorem marker_in_skipped_remark :
    remark.stretches = [] ++ .skipped ("// a ".toList ++ (marker ++ " call".toList)) ::
        [.code ('\n' :: classText "A")] ∧
      ((∃ site c, .declared site c ∈ outcomes [] remark ∧
            site.markerOffset = (Stretch.texts [] ++ "// a ".toList).size) ↔
          ¬ PassedInDeclaration [] remark (Stretch.texts [] ++ "// a ".toList).size ∧
            bindsName (Front.ofText (Stretch.texts [] ++ "// a ".toList)).popStatement.2 = true ∧
            hasBody (" call".toList ++ Stretch.texts [.code ('\n' :: classText "A")]) = true) ∧
      Slice.CopiedInto {} {} [] [remarked] ['\n']
        (fileHeader ++ "// a zoop.class( call\n".toList ++ structText "A") []
        ("// a ".toList ++ (marker ++ " call".toList)) := by
  have hstretches : remark.stretches = [] ++ .skipped ("// a ".toList ++ (marker ++ " call".toList)) ::
      [.code ('\n' :: classText "A")] := by decide +kernel
  have hlayout : IsLayout false ([], remark) [remarked] ['\n'] :=
    ⟨by decide +kernel, ⟨List.cons_ne_nil _ _, by decide +kernel, trivial⟩, rfl⟩
  have hrender : render {} {} (.ofSource false [] remark) =
      .ok (fileHeader ++ "// a zoop.class( call\n".toList ++ structText "A") := by decide +kernel
  have hapart : Slice.Apart [remarked] 0 21 :=
    List.forall_mem_singleton.2 (Or.inl (by decide))
  obtain ⟨hiff, hcopied⟩ := marker_in_skipped hstretches
  refine ⟨hstretches, hiff, ?_⟩
  exact hcopied false {} {} [remarked] ['\n'] _ hlayout hrender hapart [] _ []
    (by rw [List.nil_append, List.append_nil]) (by decide +kernel) (List.cons_ne_nil _ _)

/-- A class that is commented out. -/
def commentedOut : Text := "// const A = zoop.class(struct \x7b x: u8 \x7d);".toList

/-- A class that is commented out is declared all the same, and its comment is turned into code. -/
theorem declared_of_commentedOut :
    commentedOut.stretches =
        [] ++ .skipped ("// const A = ".toList ++ (marker ++ "struct \x7b x: u8 \x7d);".toList)) :: [] ∧
      (outcomes [] commentedOut).map Outcome.marker = [13] ∧
      scan [] commentedOut =
        [.declared
          { name := "A".toList
            visibility := "// ".toList
            fields := [⟨"x".toList, "u8".toList, none⟩]
            span := ⟨0, 42⟩
            file := [] }] ∧
      render {} {} (.ofSource false [] commentedOut) =
        .ok (fileHeader ++ "// const A = struct \x7b\n    x: u8,\n\x7d;".toList) := by
  decide +kernel

end ClassFlattening
