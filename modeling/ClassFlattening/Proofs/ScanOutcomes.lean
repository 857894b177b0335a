import ClassFlattening.Proofs.Occurrences
import ClassFlattening.Proofs.ScanSteps
import ClassFlattening.Proofs.Slices

/-!
# Where the outcomes of a scan lie

A finding keeps the class that was declared but not the site it was read from. `outcomes` is the scan
with the sites kept. Every outcome belongs to an occurrence of the marker, and the outcomes stand in the
order of their markers. The offsets of a declared site lie in the source in their order, each between two
characters, and its braces match.

The end of a declaration is the end of a statement, so no later statement reaches back over it: looking
back from any later marker stops at or behind that end, and later spans start there.
-/

namespace ClassFlattening

/-- Fronts with the same text are the same. -/
theorem Front.eq_of_text_eq {front other : Front} (h : front.text = other.text) : front = other := by
  have hpassed : front.passed = other.passed := List.reverse_inj.1 h
  cases front with
  | mk passed size size_eq =>
    cases other with
    | mk passed' size' size_eq' =>
      cases hpassed
      cases size_eq
      cases size_eq'
      rfl

/-- The start of the statement that the text in front of an offset ends with. -/
def statementStart? (source : Text) (offset : Nat) : Option Nat :=
  (source.cutAt? offset).map fun cut => (Front.ofText cut.before).popStatement.1.size

/-- What a scan says about one marker, with the site of a declaration. -/
inductive Outcome where
  | declared (site : Site) (declared : Class)
  | malformed (offset : Nat)

namespace Outcome

/-- What an outcome says about its marker. -/
def finding : Outcome → Finding
  | declared _ c => .declared c
  | malformed offset => .malformed offset

/-- The offset of the marker that an outcome is about. -/
def marker : Outcome → Nat
  | declared site _ => site.markerOffset
  | malformed offset => offset

/-- The outcome of the marker between two parts of a source. -/
def ofMarker (file before after : Text) : Outcome :=
  match declaredAt? file (.ofText before) (ClassFlattening.marker ++ after) with
  | none => malformed before.size
  | some (site, c) => declared site c

end Outcome

/-- The source behind a declaration is shorter than the text in which its marker was found. -/
theorem length_rest_lt_of_declaredAt? {file : Text} {front : Front} {rest : Text} {cut : Cut}
    {site : Site} {c : Class} (hcut : rest.cutAtText? marker = some cut)
    (h : declaredAt? file front cut.after = some (site, c)) : site.rest.length < rest.length := by
  have hsite := Site.length_rest_lt (declaredAt?_eq_some_iff.1 h).1
  have hafter := Text.length_after_le (Text.whole_of_cutWhere _ hcut)
  rw [List.length_drop] at hsite
  omega

/-- The outcomes for the rest of a source behind a front. -/
def outcomesFrom (file : Text) (front : Front) (rest : Text) : List Outcome :=
  match _found : rest.cutAtText? marker with
  | none => []
  | some cut =>
    match _declared : declaredAt? file (front.push cut.before) cut.after with
    | none =>
      .malformed (front.push cut.before).size ::
        outcomesFrom file ((front.push cut.before).push (cut.after.take 1)) cut.behind
    | some (site, c) => .declared site c :: outcomesFrom file site.through site.rest
termination_by rest.length
decreasing_by
  · exact Text.length_behind_lt_of_cutWhere _found
  · exact length_rest_lt_of_declaredAt? _found _declared

/-- The outcomes for the markers of a source, in order. -/
def outcomes (file source : Text) : List Outcome := outcomesFrom file .empty source

/-- A marker that declares a class gives the first outcome, and the others are behind the declaration. -/
theorem outcomesFrom_of_declaredAt? {file : Text} {front : Front} {rest : Text} {cut : Cut}
    {site : Site} {c : Class} (hcut : rest.cutAtText? marker = some cut)
    (hsome : declaredAt? file (front.push cut.before) cut.after = some (site, c)) :
    outcomesFrom file front rest = .declared site c :: outcomesFrom file site.through site.rest := by
  rw [outcomesFrom]
  split
  · next hnone => cases hcut.symm.trans hnone
  · next cut' hcut' =>
    cases hcut.symm.trans hcut'
    split
    · next hnone => cases hsome.symm.trans hnone
    · next site' c' hsome' =>
      cases hsome.symm.trans hsome'
      rfl

/-- The outcomes say what the scan finds. -/
theorem map_finding_outcomesFrom (file : Text) (front : Front) (rest : Text) :
    (outcomesFrom file front rest).map Outcome.finding = scanFrom file front rest := by
  fun_induction outcomesFrom file front rest with
  | case1 front rest hcut =>
    rw [scanFrom_step, hcut]
    rfl
  | case2 front rest cut hcut hnone ih =>
    rw [scanFrom_step, hcut, List.map_cons, ih]
    simp only [hnone]
    rfl
  | case3 front rest cut hcut site c hsome ih =>
    rw [scanFrom_step, hcut, List.map_cons, ih]
    simp only [hsome]
    rfl

/-- The text passed in front of a marker is part of the text through its declaration. -/
theorem prefix_through_of_declaredAt? {file : Text} {front : Front} {after : Text} {site : Site}
    {c : Class} (h : declaredAt? file front after = some (site, c)) :
    front.text <+: site.through.text := by
  obtain ⟨hlead, hheader, -⟩ := Site.pieces_of_read? (declaredAt?_eq_some_iff.1 h).1
  refine ⟨site.opening ++ '{' :: site.body ++ site.closing, ?_⟩
  rw [Site.text_through, Site.statement, ← front.popStatement_whole, ← hlead, ← hheader]
  simp only [List.append_assoc, List.cons_append]

/-- The marker of a declaration stands at the end of the front that it is read behind. -/
theorem markerOffset_of_declaredAt? {file : Text} {front : Front} {after : Text} {site : Site}
    {c : Class} (h : declaredAt? file front after = some (site, c)) :
    site.markerOffset = front.size := by
  obtain ⟨hlead, hheader, -⟩ := Site.pieces_of_read? (declaredAt?_eq_some_iff.1 h).1
  rw [Site.markerOffset, Site.start, hlead, hheader, Front.size_eq_size_text, Front.size_eq_size_text,
    ← Text.size_append, front.popStatement_whole]

/-- The outcome between two parts of a source is about the marker behind the first one. -/
@[simp] theorem Outcome.marker_ofMarker (file before after : Text) :
    (Outcome.ofMarker file before after).marker = before.size := by
  rw [Outcome.ofMarker]
  split
  · rfl
  · next site c h =>
    rw [Outcome.marker, markerOffset_of_declaredAt? h, Front.size_eq_size_text, Front.text_ofText]

section Step

variable {rest : Text} {cut : Cut}

/-- What is behind a marker found in the rest of a source. -/
theorem exists_occurrence_of_cutAtText? (file : Text) (front : Front)
    (hcut : rest.cutAtText? marker = some cut) :
    ∃ after, cut.after = marker ++ after ∧ front.text ++ rest =
      (front.push cut.before).text ++ (marker ++ after) ∧
      Outcome.ofMarker file (front.push cut.before).text after =
        match declaredAt? file (front.push cut.before) cut.after with
        | none => .malformed (front.push cut.before).size
        | some (site, c) => .declared site c := by
  obtain ⟨after, hafter⟩ := Text.exists_of_cutAtText? hcut
  refine ⟨after, hafter, ?_, ?_⟩
  · rw [← hafter, Front.text_push, List.append_assoc, ← Cut.whole, Text.whole_of_cutWhere _ hcut]
  · have hfront : Front.ofText (front.push cut.before).text = front.push cut.before :=
      Front.eq_of_text_eq (Front.text_ofText _)
    rw [Outcome.ofMarker, hfront, hafter, ← Front.size_eq_size_text]

/-- Passing the first character of a marker passes nothing else. -/
theorem text_push_through {front : Front} (hcut : rest.cutAtText? marker = some cut) :
    ((front.push cut.before).push (cut.after.take 1)).text ++ cut.behind = front.text ++ rest := by
  rw [Front.text_push, Front.text_push, List.append_assoc, List.append_assoc,
    ← Text.whole_of_cutWhere _ hcut, ← cut.through_append_behind, Cut.through, List.append_assoc]

end Step

/-- Each outcome is that of an occurrence of the marker behind the front. -/
theorem exists_occurrence_of_mem {file : Text} {front : Front} {rest : Text} {o : Outcome}
    (h : o ∈ outcomesFrom file front rest) :
    ∃ before after, front.text ++ rest = before ++ (marker ++ after) ∧ front.text <+: before ∧
      o = .ofMarker file before after := by
  fun_induction outcomesFrom file front rest with
  | case1 => simp at h
  | case2 front rest cut hcut hnone ih =>
    obtain ⟨after, -, hwhole, hat⟩ := exists_occurrence_of_cutAtText? file front hcut
    rcases List.mem_cons.1 h with rfl | h
    · refine ⟨_, after, hwhole, ?_, ?_⟩
      · rw [Front.text_push]
        exact List.prefix_append _ _
      · simp only [hat, hnone]
    · obtain ⟨before, after, hwhole, hfront, ho⟩ := ih h
      refine ⟨before, after, ?_, ?_, ho⟩
      · rw [← text_push_through hcut, hwhole]
      · refine List.IsPrefix.trans ?_ hfront
        rw [Front.text_push, Front.text_push, List.append_assoc]
        exact List.prefix_append _ _
  | case3 front rest cut hcut site c hsome ih =>
    obtain ⟨after, -, hwhole, hat⟩ := exists_occurrence_of_cutAtText? file front hcut
    have hpassed : front.text <+: (front.push cut.before).text := by
      rw [Front.text_push]
      exact List.prefix_append _ _
    rcases List.mem_cons.1 h with rfl | h
    · refine ⟨_, after, hwhole, hpassed, ?_⟩
      simp only [hat, hsome]
    · obtain ⟨before, after, hwhole, hfront, ho⟩ := ih h
      refine ⟨before, after, ?_, ?_, ho⟩
      · rw [← whole_of_declaredAt? hcut hsome, hwhole]
      · exact hpassed.trans ((prefix_through_of_declaredAt? hsome).trans hfront)

/-- What is said about a declared marker is read from the text on both sides of it. -/
theorem declaredAt?_of_ofMarker {file before after : Text} {site : Site} {c : Class}
    (h : Outcome.declared site c = .ofMarker file before after) :
    declaredAt? file (.ofText before) (marker ++ after) = some (site, c) := by
  rw [Outcome.ofMarker] at h
  split at h
  · cases h
  · next hsome =>
    cases h
    exact hsome

/-- An outcome precedes another one: its marker does, and if it is a declaration, the statement with the
other marker starts at or behind its end. -/
structure Outcome.Precedes (source : Text) (a b : Outcome) : Prop where
  marker_lt : a.marker < b.marker
  stop_le : ∀ site c, a = .declared site c →
    ∃ start, statementStart? source b.marker = some start ∧ site.stop ≤ start

namespace Site

variable {site : Site} {front : Front} {call after : Text}

/-- The text through a site is as long as the site reaches. -/
theorem size_text_through (site : Site) : site.through.text.size = site.stop := by
  rw [text_through, Text.size_append, stop_eq, start, Front.size_eq_size_text]

/-- A marker stands in front of the end of its declaration. -/
theorem markerOffset_lt_stop (site : Site) : site.markerOffset < site.stop := by
  rw [stop, bodyClose, bodyOpen]
  omega

end Site

/-- A statement with a marker behind a declaration starts at or behind the declaration's end. -/
theorem exists_statementStart?_of_prefix {site : Site} {front : Front} {call behind : Text}
    (hread : Site.read? front call behind = some site) {before after : Text}
    (hfront : site.through.text <+: before) :
    ∃ start, statementStart? (before ++ after) before.size = some start ∧ site.stop ≤ start := by
  obtain ⟨gap, hgap⟩ := hfront
  have hbefore : (Front.ofText before).text = site.through.text ++ gap := by
    rw [Front.text_ofText, hgap]
  obtain ⟨left, hleft, -⟩ :=
    Front.popStatement_stops (Site.endsStatement_of_read? hread) hbefore
  refine ⟨(Front.ofText before).popStatement.1.size, ?_, ?_⟩
  · rw [statementStart?, Text.cutAt?_append]
    rfl
  · rw [Front.size_eq_size_text, hleft, Text.size_append, site.size_text_through]
    exact Nat.le_add_right _ _

/-- Each outcome precedes those behind it. -/
theorem pairwise_precedes_outcomesFrom (file : Text) (front : Front) (rest : Text) :
    (outcomesFrom file front rest).Pairwise (Outcome.Precedes (front.text ++ rest)) := by
  fun_induction outcomesFrom file front rest with
  | case1 => exact .nil
  | case2 front rest cut hcut hnone ih =>
    rw [text_push_through hcut] at ih
    refine List.pairwise_cons.2 ⟨fun b hb => ⟨?_, fun _ _ h => by cases h⟩, ih⟩
    obtain ⟨before, after, -, ⟨gap, hgap⟩, rfl⟩ := exists_occurrence_of_mem hb
    obtain ⟨more, hmore⟩ := Text.exists_of_cutAtText? hcut
    have hchar : Text.size (cut.after.take 1) = 1 := by
      rw [hmore]
      rfl
    rw [Outcome.marker_ofMarker, Outcome.marker, ← hgap, Text.size_append, Front.text_push,
      Text.size_append, hchar, ← Front.size_eq_size_text]
    omega
  | case3 front rest cut hcut site c hsome ih =>
    rw [whole_of_declaredAt? hcut hsome] at ih
    refine List.pairwise_cons.2 ⟨fun b hb => ?_, ih⟩
    obtain ⟨before, after, hwhole, hfront, rfl⟩ := exists_occurrence_of_mem hb
    rw [whole_of_declaredAt? hcut hsome] at hwhole
    obtain ⟨gap, hgap⟩ := hfront
    have hstop := site.size_text_through
    have hlt := site.markerOffset_lt_stop
    constructor
    · rw [Outcome.marker_ofMarker, Outcome.marker, ← hgap, Text.size_append]
      omega
    · intro site' c' h
      cases h
      rw [Outcome.marker_ofMarker, hwhole]
      exact exists_statementStart?_of_prefix (declaredAt?_eq_some_iff.1 hsome).1 ⟨gap, hgap⟩

/-- How a declared site lies in its source: its offsets stand in order, each between two characters, its
statement is the one that its marker stands in, its braces match, and it ends with the terminator. -/
structure Site.LiesIn (site : Site) (source : Text) : Prop where
  start_le_marker : site.start ≤ site.markerOffset
  marker_le_open : site.markerOffset + marker.size ≤ site.bodyOpen
  open_lt_close : site.bodyOpen < site.bodyClose
  close_lt_stop : site.bodyClose < site.stop
  stop_le_size : site.stop ≤ source.size
  isSome_cutAt? : ∀ offset ∈ [site.start, site.markerOffset, site.bodyOpen, site.bodyClose, site.stop],
    (source.cutAt? offset).isSome
  statementStart?_eq : statementStart? source site.markerOffset = some site.start
  between?_marker : source.between? site.markerOffset (site.markerOffset + marker.size) = some marker
  between?_body : source.between? (site.bodyOpen + 1) site.bodyClose = some site.body
  matchingOffset?_eq : source.matchingOffset? site.bodyOpen '{' '}' = some site.bodyClose
  between?_terminator : source.between? (site.stop - terminator.size) site.stop = some terminator

namespace Site

variable {site : Site} {front : Front} {call after : Text}

/-- The body's brace is matched by the brace behind the body. -/
theorem cutAtMatching?_of_read? (h : read? front call after = some site) :
    Text.cutAtMatching? ('{' :: site.body ++ (site.closing ++ site.rest)) '{' '}' =
      some ⟨'{' :: site.body, site.closing ++ site.rest⟩ := by
  simp only [read?, Option.bind_eq_bind, Option.bind_eq_some_iff] at h
  obtain ⟨opened, hopened, closed, hclosed, ended, hended, h⟩ := h
  cases h
  obtain ⟨inner, hinner⟩ := Text.exists_before_of_cutAtMatching? (by decide) hclosed
  obtain ⟨behind, hbehind⟩ := Text.exists_of_cutAtMatching? hclosed
  obtain ⟨rest, hrest⟩ := Text.exists_of_cutAtText? hended
  have hend := Text.whole_of_cutWhere _ hended
  rw [Cut.whole, hrest, Cut.behind, hbehind, List.tail_cons] at hend
  have hbefore : '{' :: closed.before.tail = closed.before := by rw [hinner, List.tail_cons]
  have hafter : closed.after.take 1 ++ ended.before ++ terminator ++ ended.after.drop terminator.length =
      closed.after := by
    rw [hrest, List.drop_left, hbehind, ← hend]
    simp
  simp only [hbefore, hafter]
  rw [← Cut.whole, Text.whole_of_cutAtMatching? hclosed, hclosed]

/-- The marker is behind the header. -/
theorem markerOffset_eq (site : Site) : site.markerOffset = (site.lead.text ++ site.header).size := by
  rw [markerOffset, start, Front.size_eq_size_text, Text.size_append]

/-- The brace that opens the body is behind the opening piece. -/
theorem bodyOpen_eq (site : Site) :
    site.bodyOpen = (site.lead.text ++ site.header ++ site.opening).size := by
  rw [bodyOpen, markerOffset_eq, Text.size_append (_ ++ _)]

/-- The brace that closes the body is behind the body. -/
theorem bodyClose_eq (site : Site) :
    site.bodyClose = (site.lead.text ++ site.header ++ site.opening ++ '{' :: site.body).size := by
  rw [bodyClose, bodyOpen_eq, Text.size_append (_ ++ _ ++ _), Text.size_cons, Nat.add_assoc]
  rfl

/-- The text of a site with what is in front of it and behind it. -/
theorem text_through_append (site : Site) (t : Text) :
    site.through.text ++ t =
      site.lead.text ++ site.header ++ site.opening ++ '{' :: site.body ++ (site.closing ++ t) := by
  rw [text_through, statement]
  simp only [List.append_assoc, List.cons_append]

/-- A declared site lies in the source that its marker is in. -/
theorem liesIn_of_declaredAt? {file before after : Text} {c : Class}
    (h : declaredAt? file (.ofText before) (marker ++ after) = some (site, c)) :
    site.LiesIn (before ++ (marker ++ after)) := by
  obtain ⟨hread, -⟩ := declaredAt?_eq_some_iff.1 h
  rw [List.drop_left] at hread
  obtain ⟨hlead, hheader, ⟨between, hopening⟩, ⟨gap, hclosing⟩, -⟩ := pieces_of_read? hread
  have hbefore : site.lead.text ++ site.header = before := by
    rw [hlead, hheader, Front.popStatement_whole, Front.text_ofText]
  have hwhole : site.through.text ++ site.rest = before ++ (marker ++ after) := by
    rw [text_through, whole_of_read? hread, Front.text_ofText]
  have hsource := site.text_through_append site.rest
  rw [← hwhole]
  constructor
  · exact Nat.le_add_right _ _
  · rw [bodyOpen, hopening, Text.size_append]
    omega
  · rw [bodyClose]
    omega
  · rw [stop, hclosing, List.cons_append, Text.size_cons]
    exact Nat.lt_add_of_pos_right (Nat.add_pos_left (Char.utf8Size_pos _) _)
  · rw [Text.size_append, size_text_through]
    exact Nat.le_add_right _ _
  · intro offset hoffset
    simp only [List.mem_cons, List.not_mem_nil, or_false] at hoffset
    rw [hsource]
    have hlead : site.lead.text <+: site.lead.text ++ site.header := List.prefix_append _ _
    have hopened : site.lead.text ++ site.header <+:
        site.lead.text ++ site.header ++ site.opening := List.prefix_append _ _
    have hbody : site.lead.text ++ site.header ++ site.opening <+:
        site.lead.text ++ site.header ++ site.opening ++ '{' :: site.body := List.prefix_append _ _
    have hrest := List.prefix_append
      (site.lead.text ++ site.header ++ site.opening ++ '{' :: site.body) (site.closing ++ site.rest)
    rcases hoffset with rfl | rfl | rfl | rfl | rfl
    · exact Text.isSome_cutAt?_of_prefix (hlead.trans (hopened.trans (hbody.trans hrest)))
        site.lead.size_eq_size_text.symm
    · exact Text.isSome_cutAt?_of_prefix (hopened.trans (hbody.trans hrest)) site.markerOffset_eq.symm
    · exact Text.isSome_cutAt?_of_prefix (hbody.trans hrest) site.bodyOpen_eq.symm
    · exact Text.isSome_cutAt?_of_prefix hrest site.bodyClose_eq.symm
    · rw [← hsource]
      exact Text.isSome_cutAt?_of_prefix (List.prefix_append _ _) site.size_text_through
  · rw [hwhole, markerOffset_of_declaredAt? h, Front.size_eq_size_text, Front.text_ofText,
      statementStart?, Text.cutAt?_append, start, hlead]
    rfl
  · rw [hwhole, ← List.append_assoc, markerOffset_eq, hbefore]
    exact Text.between?_append before marker after
  · refine Text.between?_eq_some_iff.2
      ⟨site.lead.text ++ site.header ++ site.opening ++ ['{'], site.closing ++ site.rest, ?_, ?_, ?_⟩
    · rw [hsource]
      simp only [List.append_assoc, List.cons_append, List.nil_append]
    · rw [bodyOpen_eq, Text.size_append (_ ++ _ ++ _)]
      rfl
    · rw [bodyClose, bodyOpen_eq, Text.size_append (_ ++ _ ++ _)]
      rfl
  · rw [hsource, bodyOpen_eq, List.append_assoc (_ ++ _ ++ _), Text.matchingOffset?_append,
      cutAtMatching?_of_read? hread, Option.map_some, bodyClose_eq, Text.size_append (_ ++ _ ++ _)]
  · have hstop := site.size_text_through
    rw [text_through, statement, hclosing] at hstop
    refine Text.between?_eq_some_iff.2 ⟨site.lead.text ++ (site.header ++ site.opening ++
      '{' :: site.body ++ '}' :: gap), site.rest, ?_, ?_, ?_⟩
    · rw [text_through, statement, hclosing]
      simp only [List.append_assoc, List.cons_append]
    · rw [← hstop]
      simp only [Text.size_append, Text.size_cons, ← List.append_assoc, List.cons_append]
      omega
    · rw [← hstop]
      simp only [Text.size_append, Text.size_cons, ← List.append_assoc, List.cons_append]
      omega

end Site

/-- A declaration has the span of its site, and the site lies in the source. -/
theorem span_and_liesIn_of_mem {file source : Text} {site : Site} {c : Class}
    (h : .declared site c ∈ outcomes file source) :
    c.span = ⟨site.start, site.stop⟩ ∧ site.LiesIn source := by
  obtain ⟨before, after, hwhole, -, ho⟩ := exists_occurrence_of_mem h
  have hdeclared := declaredAt?_of_ofMarker ho
  constructor
  · rw [Site.span_of_class? (declaredAt?_eq_some_iff.1 hdeclared).2, Site.stop_eq]
  · have hsource : source = before ++ (marker ++ after) := hwhole
    rw [hsource]
    exact Site.liesIn_of_declaredAt? hdeclared

/-- The outcomes of a source precede one another in order. -/
theorem pairwise_precedes_outcomes (file source : Text) :
    (outcomes file source).Pairwise (Outcome.Precedes source) :=
  pairwise_precedes_outcomesFrom file .empty source

/-- A declaration that precedes another one ends in front of it. -/
theorem Outcome.Precedes.stop_le_start {source : Text} {site other : Site} {c d : Class}
    (h : Outcome.Precedes source (.declared site c) (.declared other d)) (hother : other.LiesIn source) :
    site.stop ≤ other.start := by
  obtain ⟨start, hstart, hstop⟩ := h.stop_le site c rfl
  have heq : some other.start = some start := hother.statementStart?_eq.symm.trans hstart
  rwa [Option.some.inj heq]

/-- A scan gives one outcome for each marker that it stops at, in strictly increasing order of the
markers. Looking back from a marker never reaches over the end of a declaration in front of it. The
span of a declared class is that of its site, whose offsets stand in order in the source, each between
two characters; its braces match, it ends with the terminator, and no two spans overlap. -/
theorem scan_laidOut (file source : Text) :
    (outcomes file source).map Outcome.finding = scan file source ∧
      (∀ o ∈ outcomes file source,
        source.between? o.marker (o.marker + marker.size) = some marker) ∧
      (outcomes file source).Pairwise (Outcome.Precedes source) ∧
      (∀ site c, .declared site c ∈ outcomes file source →
        c.span = ⟨site.start, site.stop⟩ ∧ site.LiesIn source) ∧
      ((scan file source).filterMap Finding.class?).Pairwise fun c d => c.span.stop ≤ d.span.start := by
  have hfindings := map_finding_outcomesFrom file .empty source
  refine ⟨hfindings, ?_, pairwise_precedes_outcomes file source, fun _ _ => span_and_liesIn_of_mem, ?_⟩
  · intro o ho
    obtain ⟨before, after, hwhole, -, rfl⟩ := exists_occurrence_of_mem ho
    have hsource : source = before ++ marker ++ after := by rw [List.append_assoc]; exact hwhole
    rw [Outcome.marker_ofMarker, hsource]
    exact Text.between?_append before marker after
  · rw [scan, ← hfindings, List.filterMap_map, List.pairwise_filterMap]
    refine (pairwise_precedes_outcomes file source).imp_of_mem ?_
    intro a b ha hb hab c hc d hd
    cases a with
    | malformed offset => cases hc
    | declared site c' =>
      cases b with
      | malformed offset => cases hd
      | declared other d' =>
        cases hc
        cases hd
        obtain ⟨hspan, -⟩ := span_and_liesIn_of_mem ha
        obtain ⟨hspan', hother⟩ := span_and_liesIn_of_mem hb
        rw [hspan, hspan']
        exact hab.stop_le_start hother

end ClassFlattening
