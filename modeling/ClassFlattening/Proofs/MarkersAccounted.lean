import ClassFlattening.Proofs.ScanOutcomes

/-!
# Which markers a scan accounts for

A marker is accounted for if it has an outcome of its own or lies between the braces of a declared class.
A declaration reaches from its marker to the first brace, and from the brace that closes its body to the
first terminator, whatever stands in between: a marker there is swallowed, since the scan goes on behind
the declaration. Every marker of a source is either accounted for or swallowed, and never both. So no
marker is lost just where declarations are written with nothing between a marker and its body that holds
another marker, nor between the body and the terminator.
-/

namespace ClassFlattening

namespace Site

/-- A marker at an offset lies between the braces of a site. -/
def HoldsInBody (site : Site) (offset : Nat) : Prop :=
  site.bodyOpen < offset ∧ offset + marker.size ≤ site.bodyClose

/-- A marker at an offset lies between the marker of a site and its body, or between the body and the
terminator. -/
def Swallows (site : Site) (offset : Nat) : Prop :=
  (site.markerOffset + marker.size ≤ offset ∧ offset + marker.size ≤ site.bodyOpen) ∨
    (site.bodyClose < offset ∧ offset + marker.size + terminator.size ≤ site.stop)

end Site

/-- A marker is accounted for: it has an outcome of its own, or lies between the braces of a declared
class. -/
def MarkerAccounted (file source : Text) (offset : Nat) : Prop :=
  (∃ o ∈ outcomes file source, o.marker = offset) ∨
    ∃ site c, .declared site c ∈ outcomes file source ∧ site.HoldsInBody offset

/-- A marker is swallowed: it lies in a declaration, but behind its marker and outside its braces. -/
def MarkerSwallowed (file source : Text) (offset : Nat) : Prop :=
  ∃ site c, .declared site c ∈ outcomes file source ∧ site.Swallows offset

/-- A second marker behind the one of a site lies in the site's body, or in one of the two pieces around
it, or behind the site. -/
theorem Site.place_of_marker {site : Site} {front : Front} {behind gap after : Text}
    (hread : Site.read? front marker behind = some site) (hne : gap ≠ [])
    (h : marker ++ behind = gap ++ (marker ++ after)) :
    site.HoldsInBody (front.text ++ gap).size ∨ site.Swallows (front.text ++ gap).size ∨
      site.through.text <+: front.text ++ gap := by
  obtain ⟨hlead, hheader, ⟨between, hopening⟩, ⟨(inner : Text), hclosing⟩, hpieces⟩ :=
    Site.pieces_of_read? hread
  have hfront : site.lead.text ++ site.header = front.text := by
    rw [hlead, hheader, front.popStatement_whole]
  have hmarker : site.markerOffset = front.text.size := by rw [Site.markerOffset_eq, hfront]
  have hopen : site.bodyOpen = site.markerOffset + (marker.size + between.size) := by
    rw [Site.bodyOpen, hopening, Text.size_append]
  have hclose : site.bodyClose = site.bodyOpen + 1 + site.body.size := rfl
  have hstop : site.stop = site.bodyClose + (1 + (inner.size + terminator.size)) := by
    rw [Site.stop, hclosing, List.cons_append, Text.size_cons, Text.size_append]
    rfl
  have hbrace : ('{' : Char).utf8Size = 1 ∧ ('}' : Char).utf8Size = 1 := ⟨rfl, rfl⟩
  obtain ⟨gap, rfl, hbehind⟩ := marker_occurs_behind hne h
  have hpieces : between ++ '{' :: (site.body ++ '}' :: (inner ++ ')' :: ';' :: site.rest)) =
      gap ++ (marker ++ after) := by
    rw [← hbehind, ← List.append_cancel_left_eq marker, ← hpieces, hopening, hclosing, terminator]
    simp
  rw [Site.HoldsInBody, Site.Swallows, Text.size_append, Text.size_append, ← hmarker]
  -- The marker has no brace, no parenthesis that closes and no semicolon: it lies on one side of each.
  rcases Text.occurs_beside (by decide) hpieces with ⟨left, hbetween, -⟩ | ⟨inBody, hgap, hpieces⟩
  · have hsize := congrArg Text.size hbetween
    simp only [Text.size_append] at hsize
    exact Or.inr (Or.inl (Or.inl ⟨by omega, by omega⟩))
  have hgapSize := congrArg Text.size hgap
  rw [Text.size_append, Text.size_cons] at hgapSize
  rcases Text.occurs_beside (by decide) hpieces with ⟨left, hbody, -⟩ | ⟨inGap, hinBody, hpieces⟩
  · have hsize := congrArg Text.size hbody
    simp only [Text.size_append] at hsize
    exact Or.inl ⟨by omega, by omega⟩
  have hinBodySize := congrArg Text.size hinBody
  rw [Text.size_append, Text.size_cons] at hinBodySize
  rcases Text.occurs_beside (by decide) hpieces with ⟨left, hinner, -⟩ | ⟨inEnd, hinGap, hpieces⟩
  · have hsize := congrArg Text.size hinner
    simp only [Text.size_append] at hsize
    exact Or.inr (Or.inl (Or.inr ⟨by omega, by omega⟩))
  have hsemicolon : [] ++ ';' :: site.rest = inEnd ++ (marker ++ after) := hpieces
  rcases Text.occurs_beside (by decide) hsemicolon with ⟨left, hnil, -⟩ | ⟨left, hinEnd, -⟩
  · exact absurd (List.append_eq_nil_iff.1 (List.append_eq_nil_iff.1 hnil.symm).2).1 marker_ne_nil
  · refine Or.inr (Or.inr ⟨left, ?_⟩)
    rw [Site.text_through, Site.statement, ← hfront, hgap, hinBody, hinGap, hinEnd, hopening, hclosing,
      terminator]
    simp

/-- A search for the marker passes no marker: one behind the front is the one found or behind it. -/
theorem exists_gap_of_cutAtText? {front : Front} {rest : Text} {cut : Cut} {before after : Text}
    (hcut : rest.cutAtText? marker = some cut)
    (hwhole : front.text ++ rest = before ++ (marker ++ after)) (hfront : front.text <+: before) :
    ∃ gap, before = (front.push cut.before).text ++ gap ∧ cut.after = gap ++ (marker ++ after) := by
  obtain ⟨gap, rfl⟩ := hfront
  rw [List.append_assoc, List.append_cancel_left_eq] at hwhole
  obtain ⟨found, hfound, left, hleft⟩ := Text.exists_cutAtText?_of_occurs marker_ne_nil gap after
  rw [List.append_assoc, ← hwhole, hcut] at hfound
  cases hfound
  refine ⟨left, ?_, ?_⟩
  · rw [Front.text_push, List.append_assoc, hleft]
  · rw [← Text.whole_of_cutWhere _ hcut, ← hleft, Cut.whole, List.append_assoc] at hwhole
    exact List.append_cancel_left hwhole

/-- A marker behind a front has an outcome of its own, or lies in a declaration. -/
theorem exists_outcome_or_site (file : Text) (front : Front) (rest : Text) {before after : Text}
    (hwhole : front.text ++ rest = before ++ (marker ++ after)) (hfront : front.text <+: before) :
    (∃ o ∈ outcomesFrom file front rest, o.marker = before.size) ∨
      ∃ site c, .declared site c ∈ outcomesFrom file front rest ∧
        (site.HoldsInBody before.size ∨ site.Swallows before.size) := by
  fun_induction outcomesFrom file front rest with
  | case1 front rest hnone =>
    obtain ⟨gap, rfl⟩ := hfront
    rw [List.append_assoc, List.append_cancel_left_eq, ← List.append_assoc] at hwhole
    obtain ⟨cut, hcut, -⟩ := Text.exists_cutAtText?_of_occurs marker_ne_nil gap after
    rw [← hwhole, hnone] at hcut
    cases hcut
  | case2 front rest cut hcut hnone ih =>
    obtain ⟨gap, hbefore, hafter⟩ := exists_gap_of_cutAtText? hcut hwhole hfront
    cases gap with
    | nil =>
      refine Or.inl ⟨_, List.mem_cons_self, ?_⟩
      rw [Outcome.marker, hbefore, List.append_nil, Front.size_eq_size_text]
    | cons d gap =>
      have hpassed : ((front.push cut.before).push (cut.after.take 1)).text <+: before := by
        refine ⟨gap, ?_⟩
        rw [Front.text_push, hafter, hbefore, List.append_assoc]
        rfl
      rcases ih ((text_push_through hcut).trans hwhole) hpassed with ⟨o, ho, hmarker⟩ | ⟨site, c, ho, hsite⟩
      · exact Or.inl ⟨o, List.mem_cons_of_mem _ ho, hmarker⟩
      · exact Or.inr ⟨site, c, List.mem_cons_of_mem _ ho, hsite⟩
  | case3 front rest cut hcut site c hsome ih =>
    obtain ⟨gap, hbefore, hafter⟩ := exists_gap_of_cutAtText? hcut hwhole hfront
    by_cases hgap : gap = []
    · refine Or.inl ⟨_, List.mem_cons_self, ?_⟩
      rw [Outcome.marker, markerOffset_of_declaredAt? hsome, hbefore, hgap, List.append_nil,
        Front.size_eq_size_text]
    · obtain ⟨behind, hbehind⟩ := Text.exists_of_cutAtText? hcut
      have hread := (declaredAt?_eq_some_iff.1 hsome).1
      rw [hbehind, List.drop_left] at hread
      rcases site.place_of_marker hread hgap (hbehind.symm.trans hafter) with hbody | hswallows | hpassed
      · exact Or.inr ⟨site, c, List.mem_cons_self, Or.inl (hbefore ▸ hbody)⟩
      · exact Or.inr ⟨site, c, List.mem_cons_self, Or.inr (hbefore ▸ hswallows)⟩
      · rcases ih ((whole_of_declaredAt? hcut hsome).trans hwhole) (hbefore ▸ hpassed) with
          ⟨o, ho, hmarker⟩ | ⟨site, c, ho, hsite⟩
        · exact Or.inl ⟨o, List.mem_cons_of_mem _ ho, hmarker⟩
        · exact Or.inr ⟨site, c, List.mem_cons_of_mem _ ho, hsite⟩

section Exclusive

variable {file source : Text} {site : Site} {c : Class}

/-- A statement starts in front of its marker. -/
theorem statementStart?_le {offset start : Nat} (h : statementStart? source offset = some start) :
    start ≤ offset := by
  obtain ⟨cut, hcut, rfl⟩ := Option.map_eq_some_iff.1 h
  have hwhole := congrArg Text.size (Front.ofText cut.before).popStatement_whole
  rw [Text.size_append, Front.text_ofText, Text.size_before_of_cutAt? hcut] at hwhole
  rw [Front.size_eq_size_text]
  omega

/-- Of two outcomes of a source one precedes the other, unless they are the same. -/
theorem precedes_of_mem {a b : Outcome} (ha : a ∈ outcomes file source) (hb : b ∈ outcomes file source) :
    a = b ∨ Outcome.Precedes source a b ∨ Outcome.Precedes source b a := by
  obtain ⟨i, hi, rfl⟩ := List.mem_iff_getElem.1 ha
  obtain ⟨j, hj, rfl⟩ := List.mem_iff_getElem.1 hb
  have hordered := List.pairwise_iff_getElem.1 (pairwise_precedes_outcomes file source)
  rcases Nat.lt_trichotomy i j with hij | rfl | hji
  · exact Or.inr (Or.inl (hordered i j hi hj hij))
  · exact Or.inl rfl
  · exact Or.inr (Or.inr (hordered j i hj hi hji))

/-- No outcome is about a marker inside a declaration. -/
theorem marker_outside_of_mem {o : Outcome} (ho : o ∈ outcomes file source)
    (hsite : .declared site c ∈ outcomes file source) :
    o.marker ≤ site.markerOffset ∨ site.stop ≤ o.marker := by
  rcases precedes_of_mem ho hsite with rfl | h | h
  · exact Or.inl (Nat.le_refl _)
  · exact Or.inl (Nat.le_of_lt h.marker_lt)
  · obtain ⟨start, hstart, hstop⟩ := h.stop_le site c rfl
    exact Or.inr (Nat.le_trans hstop (statementStart?_le hstart))

/-- Two declarations are the same or do not overlap. -/
theorem eq_or_apart_of_mem {other : Site} {d : Class} (hsite : .declared site c ∈ outcomes file source)
    (hother : .declared other d ∈ outcomes file source) :
    site = other ∨ site.stop ≤ other.start ∨ other.stop ≤ site.start := by
  rcases precedes_of_mem hsite hother with heq | h | h
  · cases heq
    exact Or.inl rfl
  · exact Or.inr (Or.inl (h.stop_le_start (span_and_liesIn_of_mem hother).2))
  · exact Or.inr (Or.inr (h.stop_le_start (span_and_liesIn_of_mem hsite).2))

/-- A marker in a declaration lies between its marker and its end. -/
theorem Site.between_of_holds_or_swallows {offset : Nat} (hlies : site.LiesIn source)
    (h : site.HoldsInBody offset ∨ site.Swallows offset) :
    site.markerOffset < offset ∧ offset < site.stop := by
  have hmarker : marker.size = 11 := rfl
  have h₁ := hlies.marker_le_open
  have h₂ := hlies.open_lt_close
  have h₃ := hlies.close_lt_stop
  rw [hmarker] at h₁
  rw [Site.HoldsInBody, Site.Swallows, hmarker] at h
  omega

/-- A marker that is accounted for is not swallowed. -/
theorem not_swallowed_of_accounted {offset : Nat} (h : MarkerAccounted file source offset) :
    ¬ MarkerSwallowed file source offset := by
  rintro ⟨site, c, hsite, hswallows⟩
  obtain ⟨-, hlies⟩ := span_and_liesIn_of_mem hsite
  obtain ⟨hlt, hstop⟩ := Site.between_of_holds_or_swallows hlies (Or.inr hswallows)
  rcases h with ⟨o, ho, rfl⟩ | ⟨other, d, hother, hbody⟩
  · rcases marker_outside_of_mem ho hsite with h | h
    · omega
    · omega
  · obtain ⟨-, hlies'⟩ := span_and_liesIn_of_mem hother
    obtain ⟨hlt', hstop'⟩ := Site.between_of_holds_or_swallows hlies' (Or.inl hbody)
    have hstart := hlies.start_le_marker
    have hstart' := hlies'.start_le_marker
    rcases eq_or_apart_of_mem hsite hother with rfl | h | h
    · rw [Site.HoldsInBody] at hbody
      rw [Site.Swallows] at hswallows
      omega
    · omega
    · omega

end Exclusive

/-- Every marker of a source is accounted for, unless it lies in a declaration outside of its braces. -/
theorem markerAccounted_iff (file before after : Text) :
    MarkerAccounted file (before ++ marker ++ after) before.size ↔
      ¬ MarkerSwallowed file (before ++ marker ++ after) before.size := by
  constructor
  · exact not_swallowed_of_accounted
  · intro hswallowed
    rw [List.append_assoc] at hswallowed ⊢
    rcases exists_outcome_or_site file .empty _ (rfl : Front.empty.text ++ _ = before ++ (marker ++ after))
      List.nil_prefix with hown | ⟨site, c, hsite, hbody | hswallows⟩
    · exact Or.inl hown
    · exact Or.inr ⟨site, c, hsite, hbody⟩
    · exact absurd ⟨site, c, hsite, hswallows⟩ hswallowed

/-- A declaration without a terminator, up to the marker of the next declaration. -/
def unterminated : Text := "const A = zoop.class(struct {}\nconst B = ".toList

/-- The site that is read from it: it ends with the terminator of the next declaration. -/
def unterminatedSite : Site where
  lead := .empty
  header := "const A = ".toList
  opening := "zoop.class(struct ".toList
  body := []
  closing := "\x7d\nconst B = zoop.class(struct {});".toList
  rest := []

/-- The marker behind a declaration without a terminator is not accounted for. -/
theorem not_markerAccounted_unterminated :
    ¬ MarkerAccounted [] (unterminated ++ marker ++ "struct {});".toList) unterminated.size := by
  intro haccounted
  apply not_swallowed_of_accounted haccounted
  obtain ⟨c, hclass⟩ : ∃ c, unterminatedSite.class? [] = some c := ⟨_, rfl⟩
  have hcut : (unterminated ++ marker ++ "struct {});".toList : Text).cutAtText? marker =
      some ⟨"const A = ".toList, marker ++ "struct {}\nconst B = ".toList ++ marker ++
        "struct {});".toList⟩ := by decide +kernel
  have hread : Site.read? (Front.empty.push "const A = ".toList) marker
      ("struct {}\nconst B = ".toList ++ marker ++ "struct {});".toList) = some unterminatedSite := by
    decide +kernel
  have hmem : .declared unterminatedSite c ∈
      outcomes [] (unterminated ++ marker ++ "struct {});".toList) := by
    rw [outcomes, outcomesFrom_of_declaredAt? hcut (declaredAt?_eq_some_iff.2 ⟨hread, hclass⟩)]
    exact List.mem_cons_self
  exact ⟨unterminatedSite, c, hmem, Or.inr (by decide)⟩

end ClassFlattening
