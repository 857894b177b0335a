import ClassFlattening.Proofs.ByOffset.Members
import ClassFlattening.Proofs.ScanOutcomes

/-!
# Declarations by their offsets

A declaration is delimited by five offsets, and the class is read from the slices between them. A scan
goes on at the end of a declaration or one byte behind a marker; either is the offset of a character, and
lies further behind, so the scan comes to its end. A statement never starts in front of the end of the
declaration before it, so making sure of that changes nothing.
-/

namespace ClassFlattening

/-- The offsets that delimit a declaration. -/
structure SiteOffsets where
  start : Nat
  marker : Nat
  bodyOpen : Nat
  bodyClose : Nat
  stop : Nat
deriving DecidableEq, Repr

/-- The offsets of a site. -/
def Site.offsets (site : Site) : SiteOffsets where
  start := site.start
  marker := site.markerOffset
  bodyOpen := site.bodyOpen
  bodyClose := site.bodyClose
  stop := site.stop

namespace Text

/-- The text from an offset on, if the offset is a place in the text. -/
def rest? (t : Text) (offset : Nat) : Option Text := (t.cutAt? offset).map Cut.after

theorem rest?_append (s t : Text) : (s ++ t).rest? s.size = some t := by
  rw [rest?, cutAt?_append]
  rfl

theorem rest?_offsetOf {whole t : Text} (h : t <:+ whole) : whole.rest? (whole.offsetOf t) = some t := by
  obtain ⟨front, rfl⟩ := h
  rw [offsetOf_append, rest?_append]

end Text

namespace ByOffset

open Text

/-- The offset of the first marker at or behind an offset. -/
def findMarker (source : Text) (start : Nat) : Option Nat :=
  (source.rest? start).bind fun rest => (rest.textOffset? marker).map (start + ·)

/-- The start of the statement that the text in front of an offset ends with. -/
def statementStart (source : Text) (marker : Nat) : Steps Nat := do
  let front ← sliceTo source marker
  let start := ((front.lastOffset? isDelimiter).map (· + 1)).getD 0
  let line ← slice source start marker
  let width ← minus marker start
  return start + (line.firstOffset? fun c => !isIndent c).getD width

/-- The offsets of the declaration whose marker stands at an offset. -/
def declarationAt (source : Text) (marker : Nat) : Steps (Option SiteOffsets) := do
  let afterMarker := marker + ClassFlattening.marker.size
  let some rest := source.rest? afterMarker | return none
  let some index := rest.firstOffset? (· == '{') | return none
  let bodyOpen := afterMarker + index
  let some bodyClose ← findMatching source bodyOpen '{' '}' | return none
  let some rest := source.rest? (bodyClose + 1) | return none
  let some index := rest.textOffset? terminator | return none
  let stop := bodyClose + 1 + index + 2
  return some { start := ← statementStart source marker, marker, bodyOpen, bodyClose, stop }

/-- The class that a declaration between offsets declares in a file. -/
def readDeclaration (source : Text) (site : SiteOffsets) (file : Text) : Steps (Option Class) := do
  let header ← slice source site.start site.marker
  let some index ← findLastKeyword header "const".toList | return none
  let binding ← sliceFrom header (index + 5)
  let some equals := binding.firstOffset? (· == '=') | return none
  let name := (← sliceTo binding equals).trim
  if name.isEmpty then return none
  else
    let visibility ← sliceTo header index
    let body ← slice source (site.bodyOpen + 1) site.bodyClose
    let empty : Class :=
      { name
        visibility := visibility.trimStart
        span := ⟨site.start, site.stop⟩
        file }
    return some (empty.withMembers (← Source.readMembers body 0))

/-- What the marker at an offset declares. The statement starts at or behind the end of the declaration
before it. -/
def declaredAt (file source : Text) (marker previous : Nat) : Steps (Option (SiteOffsets × Class)) := do
  let some site ← declarationAt source marker | return none
  let site := { site with start := max site.start previous }
  let some c ← readDeclaration source site file | return none
  return some (site, c)

/-- Scans a source from an offset on, given the end of the last declaration. -/
def Source.scanFrom (file : Text) (source : Source) (start previous : Nat) : Steps (List Finding) :=
  match findMarker source start with
  | none => return []
  | some marker => do
    match ← declaredAt file source marker previous with
    | some (site, c) => return .declared c :: (← source |>.scanFrom file site.stop site.stop)
    | none => return .malformed marker :: (← source |>.scanFrom file (marker + 1) previous)
partial_fixpoint

/-- What the markers of a source declare, in order. -/
def scan (file source : Text) : Steps (List Finding) := Source.scanFrom file source 0 0

section Statements

/-- The characters that end a statement are of one byte. -/
theorem utf8Size_of_isDelimiter {c : Char} (h : isDelimiter c = true) : c.utf8Size = 1 := by
  simp only [isDelimiter, Bool.or_eq_true, beq_iff_eq] at h
  rcases h with (rfl | rfl) | rfl <;> rfl

/-- Looking back for a character is cutting behind the last one. -/
theorem popWhile_eq (front : Front) (p : Char → Bool) :
    (front.popWhile fun c => !p c).1.text = (front.text.cutAfterLast p).before ∧
      (front.popWhile fun c => !p c).2 = (front.text.cutAfterLast p).after := by
  have hpassed : front.text.reverse = front.passed := List.reverse_reverse _
  rw [cutAfterLast, hpassed]
  exact ⟨rfl, rfl⟩

theorem statementStart_eq (front : Front) (rest : Text) :
    statementStart (front.text ++ rest) front.size = pure front.popStatement.1.size := by
  obtain ⟨hlead, hline⟩ := popWhile_eq front isDelimiter
  have hwhole := front.popWhile_whole fun c => !isDelimiter c
  have hpass := takeWhile_eq_before (fun c => !isIndent c) (front.popWhile fun c => !isDelimiter c).2
  simp only [Bool.not_not] at hpass
  rw [Front.popStatement]
  dsimp only
  generalize front.popWhile (fun c => !isDelimiter c) = popped at *
  obtain ⟨lead, line⟩ := popped
  dsimp only at *
  have hslice := slice_append lead.text line rest
  rw [← List.append_assoc, hwhole] at hslice
  rw [statementStart, front.size_eq_size_text, sliceTo_append, pure_bind,
    size_cutAfterLast fun _ => utf8Size_of_isDelimiter, ← hlead]
  dsimp only
  rw [hslice, pure_bind, Front.size_push, hpass, firstOffset?, lead.size_eq_size_text, ← hwhole,
    size_append, minus_of_le (Nat.le_add_right _ _), Nat.add_sub_cancel_left, pure_bind]
  cases line.cutAtFirst? fun c => !isIndent c <;> rfl

end Statements

/-- A cut at the last word shows the word. -/
theorem exists_of_cutAtLastWord? {t word : Text} {cut : Cut} (h : t.cutAtLastWord? word = some cut) :
    ∃ rest, cut.whole = t ∧ cut.after = word ++ rest := by
  obtain ⟨found, hfound, rfl⟩ := Option.map_eq_some_iff.1 h
  obtain ⟨rest, hafter⟩ := exists_of_cutAtWord? hfound
  have hwhole := whole_of_cutWhere _ hfound
  refine ⟨found.before.reverse, ?_, rfl⟩
  rw [Cut.whole, hafter] at hwhole
  rw [Cut.whole, hafter, ← word.length_reverse, List.drop_left, ← List.reverse_reverse t, ← hwhole]
  simp only [List.reverse_append, List.reverse_reverse, List.append_assoc]

section Sites

variable {front : Front} {after : Text} {site : Site}

/-- Delimiting a declaration makes no misstep. -/
theorem declarationAt_eq (front : Front) (after : Text) :
    declarationAt (front.text ++ (marker ++ after)) front.size =
      pure ((Site.read? front marker after).map Site.offsets) := by
  generalize hsource : front.text ++ (marker ++ after) = source
  have hafter : after <:+ source := by
    rw [← hsource, ← List.append_assoc]
    exact List.suffix_append _ _
  have hoffset : front.size + marker.size = source.offsetOf after := by
    rw [← hsource, ← List.append_assoc, offsetOf_append, size_append, front.size_eq_size_text]
  rw [declarationAt, hoffset, rest?_offsetOf hafter, Site.read?]
  dsimp only
  rw [firstOffset?]
  cases hopened : after.cutAtFirst? (· == '{') with
  | none => rfl
  | some opened =>
    have hwhole := whole_of_cutWhere _ hopened
    have hopen := (suffix_of_cut hwhole).trans hafter
    dsimp only [Option.map_some, Option.bind_eq_bind, Option.bind_some]
    rw [offsetOf_cut hwhole hafter, findMatching_eq rfl rfl rfl hopen, pure_bind]
    cases hclosed : opened.after.cutAtMatching? '{' '}' with
    | none => rfl
    | some closed =>
      have hbehind := (behind_suffix (whole_of_cutAtMatching? hclosed)).trans hopen
      dsimp only [Option.map_some, Option.bind_some]
      rw [offsetOf_behind rfl hclosed hopen, rest?_offsetOf hbehind]
      dsimp only
      rw [textOffset?]
      cases hended : closed.behind.cutAtText? terminator with
      | none => rfl
      | some ended =>
        have hstart := statementStart_eq front (marker ++ after)
        rw [hsource] at hstart
        dsimp only [Option.map_some, Option.bind_some]
        rw [hstart, pure_bind]
        -- Each offset of a site is a sum over the sizes of the pieces in front of it.
        have hheader := congrArg Text.size front.popStatement_whole
        rw [size_append, ← Front.size_eq_size_text, ← Front.size_eq_size_text] at hheader
        have hopenAt := offsetOf_cut hwhole hafter
        have hcloseAt := offsetOf_cut (whole_of_cutAtMatching? hclosed) hopen
        have hbehindAt := offsetOf_behind rfl hclosed hopen
        obtain ⟨inner, hinner⟩ := exists_before_of_cutAtMatching? (by decide) hclosed
        obtain ⟨more, hmore⟩ := exists_of_cutAtMatching? hclosed
        have hbrace : ('{' : Char).utf8Size = 1 := rfl
        have hclosing : size (closed.after.take 1) = 1 := by
          rw [hmore]
          rfl
        have hterminator : terminator.size = 2 := rfl
        rw [hinner, size_cons, hbrace] at hcloseAt
        refine congrArg (fun offsets => pure (some offsets)) ?_
        simp only [Site.offsets, Site.stop, Site.bodyClose, Site.bodyOpen, Site.markerOffset, Site.start,
          SiteOffsets.mk.injEq, size_append, hinner, List.tail_cons, hclosing, hterminator, true_and]
        omega

/-- Reading a declaration makes no misstep. -/
theorem readDeclaration_eq (h : Site.read? front marker after = some site) (file : Text) :
    readDeclaration (front.text ++ (marker ++ after)) site.offsets file = pure (site.class? file) := by
  have hsource := Site.whole_of_read? h
  rw [Site.statement] at hsource
  simp only [List.append_assoc, List.cons_append] at hsource
  have hheader : slice (front.text ++ (marker ++ after)) site.start site.markerOffset =
      pure site.header := by
    rw [← hsource, site.markerOffset_eq, Site.start, Front.size_eq_size_text]
    exact slice_append _ _ _
  have hbody : slice (front.text ++ (marker ++ after)) (site.bodyOpen + 1) site.bodyClose =
      pure site.body := by
    have hslice := slice_append (site.lead.text ++ site.header ++ site.opening ++ ['{']) site.body
      (site.closing ++ site.rest)
    simp only [List.append_assoc, List.cons_append, List.nil_append] at hslice
    have hbrace : (site.lead.text ++ site.header ++ site.opening).size + 1 =
        (site.lead.text ++ site.header ++ site.opening ++ ['{'] : Text).size := by
      rw [size_append _ ['{']]
      rfl
    rw [hsource] at hslice
    rw [site.bodyClose_eq, site.bodyOpen_eq, hbrace]
    simp only [List.append_assoc]
    exact hslice
  rw [readDeclaration, Site.offsets]
  dsimp only
  rw [hheader, pure_bind, findLastKeyword_eq (forall_of_all (by decide)) (by decide), pure_bind,
    Site.class?]
  cases hconst : site.header.cutAtLastWord? "const".toList with
  | none => rfl
  | some binding =>
    obtain ⟨rest, hwhole, hafter⟩ := exists_of_cutAtLastWord? hconst
    have hbinding : sliceFrom site.header (binding.before.size + 5) = pure rest := by
      have hslice := sliceFrom_append (binding.before ++ "const".toList) rest
      rwa [List.append_assoc, ← hafter, size_append, ← Cut.whole, hwhole] at hslice
    have hvisibility : sliceTo site.header binding.before.size = pure binding.before := by
      rw [← hwhole]
      exact sliceTo_append _ _
    have hdrop : binding.after.drop 5 = rest := by
      rw [hafter]
      rfl
    dsimp only [Option.map_some, Option.bind_eq_bind, Option.bind_some]
    rw [hbinding, pure_bind, firstOffset?, hdrop]
    cases hequals : rest.cutAtFirst? (· == '=') with
    | none => rfl
    | some bound =>
      obtain ⟨hrest, -⟩ := eq_of_cutAtFirst? hequals
      have hmembers := readMembers_eq (List.suffix_refl site.body)
      rw [offsetOf_self] at hmembers
      dsimp only [Option.map_some, Option.bind_some]
      rw [hrest, sliceTo_append, pure_bind]
      split
      · rfl
      · rw [hvisibility, pure_bind, hbody, pure_bind, hmembers, pure_bind]
        rfl

end Sites

section Scan

variable {front : Front} {rest done gap : Text}

/-- The search for a marker finds the offset of the cut. -/
theorem findMarker_append (front : Front) (rest : Text) :
    findMarker (front.text ++ rest) front.size =
      (rest.cutAtText? marker).map fun cut => (front.push cut.before).size := by
  rw [findMarker, front.size_eq_size_text, rest?_append, Option.bind_some, textOffset?, Option.map_map]
  congr 1
  funext cut
  rw [Front.size_push, front.size_eq_size_text]
  rfl

/-- What a marker declares is found without a misstep, and its statement does not reach back over the
end of the last declaration. -/
theorem declaredAt_eq (file : Text) (hdone : EndsStatement done) (hfront : front.text = done ++ gap)
    (after : Text) :
    declaredAt file (front.text ++ (marker ++ after)) front.size done.size =
      pure ((ClassFlattening.declaredAt? file front (marker ++ after)).map
        fun found => (found.1.offsets, found.2)) := by
  rw [declaredAt, declarationAt_eq, pure_bind, declaredAt?, List.drop_left]
  cases hread : Site.read? front marker after with
  | none => rfl
  | some site =>
    obtain ⟨hlead, -⟩ := Site.pieces_of_read? hread
    obtain ⟨left, hleft, -⟩ := Front.popStatement_stops hdone hfront
    have hstart : max site.offsets.start done.size = site.offsets.start := by
      apply Nat.max_eq_left
      change done.size ≤ site.lead.size
      rw [Front.size_eq_size_text, hlead, hleft, size_append]
      exact Nat.le_add_right _ _
    have hsite : { site.offsets with start := max site.offsets.start done.size } = site.offsets := by
      rw [hstart]
    dsimp only [Option.map_some, Option.bind_eq_bind, Option.bind_some]
    rw [hsite, readDeclaration_eq hread, pure_bind]
    cases site.class? file <;> rfl

/-- A scan comes to its end without a misstep, with the findings. -/
theorem scanFrom_eq (file : Text) (hdone : EndsStatement done) (hfront : front.text = done ++ gap) :
    Source.scanFrom file (front.text ++ rest) front.size done.size =
      pure (ClassFlattening.scanFrom file front rest) := by
  induction hlength : rest.length using Nat.strongRecOn generalizing front rest done gap with
  | ind n ih =>
    subst hlength
    rw [Source.scanFrom, findMarker_append, scanFrom_step]
    cases hcut : rest.cutAtText? marker with
    | none => rfl
    | some cut =>
      obtain ⟨more, hmore⟩ := exists_of_cutAtText? hcut
      have hwhole := whole_of_cutWhere _ hcut
      have hhere : (front.push cut.before).text = done ++ (gap ++ cut.before) := by
        rw [Front.text_push, hfront, List.append_assoc]
      have hsource : front.text ++ rest = (front.push cut.before).text ++ (marker ++ more) := by
        rw [Front.text_push, List.append_assoc, ← hmore, ← Cut.whole, hwhole]
      have hdeclared := declaredAt_eq file hdone hhere more
      rw [← hsource, ← hmore] at hdeclared
      dsimp only [Option.map_some]
      rw [hdeclared, pure_bind]
      cases hfound : declaredAt? file (front.push cut.before) cut.after with
      | none =>
        have hfront' : ((front.push cut.before).push (cut.after.take 1)).text =
            done ++ (gap ++ (cut.before ++ cut.after.take 1)) := by
          rw [Front.text_push, hhere, List.append_assoc, List.append_assoc]
        have hchar : size (cut.after.take 1) = 1 := by
          rw [hmore]
          rfl
        have hrest := ih _ (length_behind_lt_of_cutWhere hcut) hdone hfront' rfl
        rw [text_push_through hcut, Front.size_push, hchar] at hrest
        simp only [Option.map_none, hrest, pure_bind]
      | some found =>
        obtain ⟨site, c⟩ := found
        have hread := (declaredAt?_eq_some_iff.1 hfound).1
        have hrest := ih _ (length_rest_lt_of_declaredAt? hcut hfound) (Site.endsStatement_of_read? hread)
          (List.append_nil _).symm rfl
        rw [whole_of_declaredAt? hcut hfound, Front.size_eq_size_text, site.size_text_through] at hrest
        simp only [Option.map_some, Site.offsets, hrest, pure_bind]

/-- A scan of a source makes no misstep. -/
theorem scan_eq (file source : Text) : scan file source = pure (ClassFlattening.scan file source) := by
  have hdone : EndsStatement [] := fun c hc => by cases hc
  have hfront : Front.empty.text = [] ++ [] := rfl
  exact scanFrom_eq file hdone hfront

end Scan

end ByOffset

end ClassFlattening
