import ClassFlattening.Declaration

/-!
# The pieces of a site

A search stops at a character that its verdict names, so each cut shows what was searched for. Put
together for the searches that take a declaration apart, this says which text each piece of a site is:
the pieces in order make up the source again, the closing piece starts with the brace and ends with the
terminator, and the statement starts behind every text that ends with a delimiter. Since a declaration
ends with a delimiter itself, the next one never reaches back into it.
-/

namespace ClassFlattening

namespace Text

/-- The text behind a cut starts with a character at which the verdict is to stop. -/
theorem exists_stop_of_cutWhere {σ : Type} {verdict : σ → Char → Text → Verdict σ} {state : σ}
    {t : Text} {cut : Cut} (h : cutWhere verdict state t = some cut) :
    ∃ at_ c rest, cut.after = c :: rest ∧ verdict at_ c rest = .stop := by
  induction t generalizing state cut with
  | nil => simp at h
  | cons c rest ih =>
    rcases cutWhere_cases h with ⟨hstop, rfl⟩ | ⟨next, inner, -, hinner, rfl⟩
    · exact ⟨state, c, rest, rfl, hstop⟩
    · obtain ⟨at_, d, more, hafter, hstop⟩ := ih hinner
      exact ⟨at_, d, more, hafter, hstop⟩

/-- What a pattern leaves of a text that starts with it. -/
theorem dropLead?_eq_some_iff {t pattern rest : Text} :
    t.dropLead? pattern = some rest ↔ t = pattern ++ rest := by
  rw [dropLead?]
  constructor
  · intro h
    split at h
    next hfront =>
      obtain ⟨more, hmore⟩ := List.isPrefixOf_iff_prefix.1 hfront
      rw [← hmore, List.drop_left] at h
      cases h
      exact hmore.symm
    next => cases h
  · intro h
    rw [h, if_pos (List.isPrefixOf_iff_prefix.2 (List.prefix_append _ _)), List.drop_left]

/-- A text that starts with a pattern. -/
theorem dropLead?_append (pattern rest : Text) : dropLead? (pattern ++ rest) pattern = some rest :=
  dropLead?_eq_some_iff.2 rfl

/-- A text that starts with a character. -/
theorem dropLead?_cons (c : Char) (rest : Text) : dropLead? (c :: rest) [c] = some rest :=
  dropLead?_append [c] rest

/-- A cut at the first occurrence of a character shows the character. -/
theorem eq_of_cutAtFirst? {t : Text} {c : Char} {cut : Cut} (h : t.cutAtFirst? (· == c) = some cut) :
    t = cut.before ++ c :: cut.behind ∧ cut.after = c :: cut.behind := by
  obtain ⟨_, d, rest, hafter, hstop⟩ := exists_stop_of_cutWhere h
  have hd : d = c := by
    cases hc : d == c with
    | true => exact eq_of_beq hc
    | false => simp [hc] at hstop
  have hwhole := whole_of_cutWhere _ h
  rw [Cut.whole, hafter, hd] at hwhole
  rw [Cut.behind, hafter, hd]
  exact ⟨hwhole.symm, rfl⟩

/-- The text behind a cut at a pattern starts with the pattern. -/
theorem exists_of_cutAtText? {t pattern : Text} {cut : Cut} (h : t.cutAtText? pattern = some cut) :
    ∃ rest, cut.after = pattern ++ rest := by
  obtain ⟨_, c, rest, hafter, hstop⟩ := exists_stop_of_cutWhere h
  rw [matchesAt_eq_isPrefixOf] at hstop
  cases hmatch : pattern.isPrefixOf (c :: rest) with
  | false => simp [hmatch] at hstop
  | true =>
    obtain ⟨more, hmore⟩ := List.isPrefixOf_iff_prefix.1 hmatch
    exact ⟨more, hafter.trans hmore.symm⟩

/-- The text behind a cut in the code starts with a character at which the verdict is to stop. -/
theorem exists_stop_of_cutInCode {σ : Type} {verdict : σ → Char → Verdict σ} {state : σ} {t : Text}
    {cut : Cut} (h : cutInCode verdict state t = some cut) :
    ∃ at_ c rest, cut.after = c :: rest ∧ verdict at_ c = .stop := by
  rw [cutInCode_eq_cutWhere] at h
  obtain ⟨at_, c, rest, hafter, hstop⟩ := exists_stop_of_cutWhere h
  exact ⟨at_.2, c, rest, hafter, (codeVerdict_eq_stop_iff.1 hstop).2⟩

/-- A search for the matching bracket stops at closing brackets alone. -/
theorem eq_closing_of_matchingVerdict {opening closing c : Char} {depth : Nat}
    (h : matchingVerdict opening closing depth c = .stop) : c = closing := by
  by_cases hclosing : c = closing
  · exact hclosing
  · rw [matchingVerdict, if_neg hclosing] at h
    split at h <;> cases h

/-- The text behind a cut at a matching bracket starts with the closing one. -/
theorem exists_of_cutAtMatching? {t : Text} {opening closing : Char} {cut : Cut}
    (h : t.cutAtMatching? opening closing = some cut) : ∃ rest, cut.after = closing :: rest := by
  rw [cutAtMatching?] at h
  split at h
  · obtain ⟨_, c, rest, hafter, hstop⟩ := exists_stop_of_cutInCode h
    exact ⟨rest, eq_closing_of_matchingVerdict hstop ▸ hafter⟩
  · simp at h

/-- The text in front of a matching bracket starts with the opening one. -/
theorem exists_before_of_cutAtMatching? {t : Text} {opening closing : Char} {cut : Cut}
    (hne : opening ≠ closing) (h : t.cutAtMatching? opening closing = some cut) :
    ∃ inner, cut.before = opening :: inner := by
  obtain ⟨rest, hafter⟩ := exists_of_cutAtMatching? h
  have hwhole := whole_of_cutAtMatching? h
  have hhead : t.head? = some opening := by
    rw [cutAtMatching?] at h
    split at h
    · assumption
    · simp at h
  rw [← hwhole, Cut.whole, hafter] at hhead
  cases hbefore : cut.before with
  | nil =>
    rw [hbefore] at hhead
    exact absurd (Option.some.inj hhead).symm hne
  | cons c inner =>
    rw [hbefore] at hhead
    exact ⟨inner, congrArg (· :: inner) (Option.some.inj hhead)⟩

end Text

/-- A new statement starts behind the text: it is empty or ends with a delimiter. -/
def EndsStatement (t : Text) : Prop := ∀ c ∈ t.getLast?, isDelimiter c = true

namespace Front

variable {front : Front} {done gap : Text}

/-- Looking back stops behind a text that ends with a character without the property. -/
theorem popWhile_stops {p : Char → Bool} (hdone : ∀ c ∈ done.getLast?, p c = false)
    (h : front.text = done ++ gap) : ∃ left, (front.popWhile p).1.text = done ++ left := by
  have hpassed : front.passed = gap.reverse ++ done.reverse := by
    rw [← List.reverse_append, ← h, text, List.reverse_reverse]
  have hstop : done.reverse.dropWhile p = done.reverse := by
    cases hdone' : done.reverse with
    | nil => rfl
    | cons c rest =>
      refine List.dropWhile_cons_of_neg ?_
      rw [hdone c (by rw [List.getLast?_eq_head?_reverse, hdone']; rfl)]
      exact Bool.false_ne_true
  refine ⟨(gap.reverse.dropWhile p).reverse, ?_⟩
  change (front.passed.dropWhile p).reverse = _
  rw [hpassed, List.dropWhile_append, hstop]
  split
  · next hempty => simp [List.isEmpty_iff.1 hempty]
  · simp

/-- A statement starts behind every text that ends one. -/
theorem popStatement_stops (hdone : EndsStatement done) (h : front.text = done ++ gap) :
    ∃ left, front.popStatement.1.text = done ++ left ∧ left ++ front.popStatement.2 = gap := by
  obtain ⟨left, hleft⟩ := popWhile_stops (p := fun c => !isDelimiter c)
    (fun c hc => by simp [hdone c hc]) h
  have hlead : front.popStatement.1.text =
      done ++ (left ++ (front.popWhile fun c => !isDelimiter c).2.takeWhile isIndent) := by
    rw [popStatement, text_push, hleft, List.append_assoc]
  refine ⟨_, hlead, ?_⟩
  have hwhole := front.popStatement_whole
  rw [hlead, h, List.append_assoc] at hwhole
  exact List.append_cancel_left hwhole

end Front

namespace Site

variable {site : Site} {front : Front} {call after : Text}

/-- What the pieces of a site are: the front without its statement, the statement in front of the call,
and the call and what follows it, up to the brace, inside the braces, through the terminator and
behind. -/
theorem pieces_of_read? (h : read? front call after = some site) :
    site.lead = front.popStatement.1 ∧ site.header = front.popStatement.2 ∧
      (∃ between, site.opening = call ++ between) ∧
      (∃ between, site.closing = '}' :: between ++ terminator) ∧
      site.opening ++ '{' :: site.body ++ site.closing ++ site.rest = call ++ after := by
  simp only [read?, Option.bind_eq_bind, Option.bind_eq_some_iff] at h
  obtain ⟨opened, hopened, closed, hclosed, ended, hended, h⟩ := h
  cases h
  obtain ⟨inner, hinner⟩ := Text.exists_before_of_cutAtMatching? (by decide) hclosed
  obtain ⟨behind, hbehind⟩ := Text.exists_of_cutAtMatching? hclosed
  obtain ⟨rest, hrest⟩ := Text.exists_of_cutAtText? hended
  have hafter := Text.whole_of_cutWhere _ hopened
  have hbody := Text.whole_of_cutAtMatching? hclosed
  have hend := Text.whole_of_cutWhere _ hended
  simp only [Cut.whole, Cut.behind, hinner, hbehind, hrest, List.tail_cons] at hafter hbody hend
  refine ⟨rfl, rfl, ⟨_, rfl⟩, ⟨ended.before, by simp [hbehind]⟩, ?_⟩
  simp only [hinner, hbehind, hrest, List.tail_cons, List.take_succ_cons, List.take_zero,
    List.drop_left, ← hafter, ← hbody, ← hend]
  simp

/-- The pieces of a site make up the source. -/
theorem whole_of_read? (h : read? front call after = some site) :
    site.lead.text ++ site.statement ++ site.rest = front.text ++ (call ++ after) := by
  obtain ⟨hlead, hheader, -, -, hpieces⟩ := pieces_of_read? h
  rw [← hpieces, ← front.popStatement_whole, ← hlead, ← hheader, statement]
  simp only [List.append_assoc, List.cons_append]

/-- A site ends where its statement ends. -/
theorem stop_eq (site : Site) : site.stop = site.start + site.statement.size := by
  simp only [stop, bodyClose, bodyOpen, markerOffset, statement, Text.size_append, Text.size_cons]
  have hbrace : ('{' : Char).utf8Size = 1 := rfl
  omega

/-- A statement is not empty. -/
theorem statement_ne_nil (site : Site) : site.statement ≠ [] := by
  simp [statement]

/-- The source through a site is the source in front of it and its statement. -/
theorem text_through (site : Site) : site.through.text = site.lead.text ++ site.statement := by
  rw [through, Front.text_push]

/-- A new statement starts behind a site. -/
theorem endsStatement_of_read? (h : read? front call after = some site) :
    EndsStatement site.through.text := by
  obtain ⟨-, -, -, ⟨between, hclosing⟩, -⟩ := pieces_of_read? h
  have hthrough : site.through.text =
      (site.lead.text ++ site.header ++ site.opening ++ '{' :: site.body ++ '}' :: between ++ [')'])
        ++ [';'] := by
    simp [text_through, statement, hclosing, terminator]
  intro c hc
  rw [hthrough, List.getLast?_concat, Option.mem_some_iff] at hc
  subst hc
  rfl

/-- A declared class is one with the members of the body, placed where the site is. -/
theorem eq_of_class? {file : Text} {c : Class} (h : site.class? file = some c) :
    ∃ name visibility, c = Class.withMembers
      { name, visibility, span := ⟨site.start, site.stop⟩, file } (Member.readAll site.body) := by
  simp only [class?, Option.bind_eq_bind, Option.bind_eq_some_iff] at h
  obtain ⟨binding, -, bound, -, h⟩ := h
  split at h
  · cases h
  · cases h
    exact ⟨_, _, rfl⟩

/-- The span of a declared class is that of its statement. -/
theorem span_of_class? {file : Text} {c : Class} (h : site.class? file = some c) :
    c.span = ⟨site.start, site.start + site.statement.size⟩ := by
  obtain ⟨name, visibility, rfl⟩ := eq_of_class? h
  rw [← stop_eq]
  rfl

/-- A declared class is one of the file in which it is declared. -/
theorem file_of_class? {file : Text} {c : Class} (h : site.class? file = some c) : c.file = file := by
  obtain ⟨name, visibility, rfl⟩ := eq_of_class? h
  rfl

end Site

end ClassFlattening
