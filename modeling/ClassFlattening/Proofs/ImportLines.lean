import ClassFlattening.RuntimeImport
import ClassFlattening.Proofs.ImportCalls
import ClassFlattening.Proofs.Occurrences

/-!
# Lines that import the runtime module

The lines that import the runtime module are left out as a whole: those of a call go from the start of the
line on which it starts to the end of the line on which it ends. A call is read alike whatever follows it,
and what is in front of lines that are left out ends with a newline. So a text on one line that is left was
there before, and one that was there is left unless it lies on the lines of an import; it then stands between
what is left of the text in front of it and of the text behind it.
-/

namespace ClassFlattening

namespace Text

/-- A first line ends with its newline, unless it is the whole text. -/
theorem cutLine_cases (t : Text) :
    t.cutLine.whole = t ∧ ((∃ front, t.cutLine.before = front ++ ['\n']) ∨ t.cutLine.after = []) := by
  rw [cutLine]
  split
  · next cut hcut =>
    obtain ⟨-, hafter⟩ := eq_of_cutAtFirst? hcut
    refine ⟨(cut.through_append_behind).trans (whole_of_cutWhere _ hcut), Or.inl ⟨cut.before, ?_⟩⟩
    rw [Cut.through, hafter]
    rfl
  · exact ⟨List.append_nil t, Or.inr rfl⟩

/-- A text is on one line, which may end with its newline. -/
def OnOneLine (t : Text) : Prop := '\n' ∉ t.dropLast

/-- What a line is cut off as is on one line. -/
theorem onOneLine_cutLine (t : Text) : t.cutLine.before.OnOneLine := by
  have hother {s : Text} (h : ∀ c ∈ s, (c == '\n') = false) : '\n' ∉ s := fun hmem => by
    have hno := h _ hmem
    rw [beq_self_eq_true] at hno
    cases hno
  rw [cutLine]
  split
  · next cut hcut =>
    obtain ⟨-, hafter⟩ := eq_of_cutAtFirst? hcut
    have hthrough : cut.through = cut.before ++ ['\n'] := by
      rw [Cut.through, hafter]
      rfl
    rw [OnOneLine, hthrough, List.dropLast_concat]
    exact hother (forall_of_cutAtFirst? hcut)
  · next hnone =>
    exact fun hmem => hother (forall_of_cutAtFirst?_eq_none hnone) (List.dropLast_subset _ hmem)

/-- A first line is cut off with its newline, and the whole text if it has none. -/
theorem cutLine_append {line rest : Text} (hline : line.OnOneLine)
    (hend : (∃ front, line = front ++ ['\n']) ∨ rest = []) : (line ++ rest).cutLine = ⟨line, rest⟩ := by
  have hended {front t : Text} (hfront : '\n' ∉ front) :
      cutLine (front ++ '\n' :: t) = ⟨front ++ ['\n'], t⟩ := by
    have hother : ∀ c ∈ front, (c == '\n') = false := fun c hc =>
      beq_false_of_ne fun heq => hfront (heq ▸ hc)
    rw [cutLine, cutAtFirst?_self hother (beq_self_eq_true '\n')]
    rfl
  obtain rfl | ⟨front, c, rfl⟩ := List.eq_nil_or_concat' line
  · rcases hend with ⟨front, hfront⟩ | rfl
    · simp at hfront
    · rfl
  rw [OnOneLine, List.dropLast_concat] at hline
  by_cases hc : c = '\n'
  · rw [hc, List.append_assoc]
    exact hended hline
  · obtain rfl : rest = [] := by
      rcases hend with ⟨other, hother⟩ | hrest
      · exact absurd (by simpa using (List.append_inj' hother rfl).2) hc
      · exact hrest
    have hnone : cutAtFirst? (· == '\n') (front ++ [c]) = none := by
      rw [← Option.not_isSome_iff_eq_none, isSome_cutAtFirst?, List.any_eq_true]
      rintro ⟨d, hd, heq⟩
      obtain rfl := eq_of_beq heq
      rcases List.mem_append.1 hd with hd | hd
      · exact hline hd
      · exact hc (List.mem_singleton.1 hd).symm
    rw [List.append_nil, cutLine, hnone]

/-- What is in front of a part of a line has no newline, and what is behind the part ends where the line does. -/
theorem beside_on_line {line rest before piece gap : Text} (hline : line.OnOneLine)
    (hend : (∃ front, line = front ++ ['\n']) ∨ rest = []) (hnewline : '\n' ∉ piece) (hne : piece ≠ [])
    (h : line = before ++ (piece ++ gap)) :
    '\n' ∉ before ∧ gap.OnOneLine ∧ ((∃ front, gap = front ++ ['\n']) ∨ rest = []) := by
  subst h
  rw [OnOneLine, List.dropLast_append_of_ne_nil (by simp [hne]), List.mem_append, not_or] at hline
  refine ⟨hline.1, ?_, hend.imp_left fun ⟨front, hfront⟩ => ?_⟩
  · cases gap with
    | nil => exact List.not_mem_nil
    | cons c gap =>
      rw [List.dropLast_append_of_ne_nil (List.cons_ne_nil c gap)] at hline
      exact fun hmem => hline.2 (List.mem_append_right _ hmem)
  · obtain rfl | ⟨back, c, rfl⟩ := List.eq_nil_or_concat' gap
    · rw [List.append_nil] at hfront
      have hlast := congrArg List.getLast? hfront
      rw [List.getLast?_append_of_ne_nil _ hne, List.getLast?_concat] at hlast
      exact absurd (List.mem_of_getLast? hlast) hnewline
    · rw [← List.append_assoc, ← List.append_assoc] at hfront
      exact ⟨back, by rw [(List.append_inj' hfront rfl).2]⟩

/-- A pattern without newlines that occurs in lines and what follows lies in the lines or behind them. -/
theorem occurs_in_lines_or_behind {pattern lines rest before after : Text} (hnewline : '\n' ∉ pattern)
    (hlines : (∃ front, lines = front ++ ['\n']) ∨ rest = [])
    (h : lines ++ rest = before ++ (pattern ++ after)) :
    (∃ gap, lines = before ++ (pattern ++ gap) ∧ after = gap ++ rest) ∨
      ∃ gap, before = lines ++ gap ∧ rest = gap ++ (pattern ++ after) ∧ ∃ front, lines = front ++ ['\n'] := by
  rcases hlines with ⟨front, rfl⟩ | rfl
  · rw [List.append_assoc, List.singleton_append] at h
    rcases occurs_beside hnewline h with ⟨gap, rfl, rfl⟩ | ⟨gap, rfl, rfl⟩
    · exact Or.inl ⟨gap ++ ['\n'], by simp, by simp⟩
    · exact Or.inr ⟨gap, by simp, rfl, front, rfl⟩
  · exact Or.inl ⟨after, by rw [← h, List.append_nil], (List.append_nil _).symm⟩

end Text

/-- A call of the runtime module is read exactly where one stands. -/
theorem readRuntimeImport?_eq_some_iff {t rest : Text} :
    readRuntimeImport? t = some rest ↔ ∃ call, IsImportCall runtimeModule call ∧ t = call ++ rest := by
  rw [← readImport?_eq_some_iff, readRuntimeImport?]
  split
  · next path behind hread =>
    by_cases hpath : path = runtimeModule
    · simp [hread, hpath]
    · simp [hread, hpath]
  · next hnone => simp [hnone]

/-- A call is read in front of more text exactly if it is read without it. -/
theorem readRuntimeImport?_append_iff {t rest : Text} (more : Text) :
    readRuntimeImport? (t ++ more) = some (rest ++ more) ↔ readRuntimeImport? t = some rest := by
  rw [readRuntimeImport?_eq_some_iff, readRuntimeImport?_eq_some_iff]
  refine exists_congr fun call => and_congr_right fun _ => ?_
  rw [← List.append_assoc]
  exact List.append_left_inj more

/-- Where no call is read in front of more text, none is read without it. -/
theorem readRuntimeImport?_eq_none_of_append {t more : Text} (h : readRuntimeImport? (t ++ more) = none) :
    readRuntimeImport? t = none := by
  rw [Option.eq_none_iff_forall_ne_some]
  intro rest hread
  rw [(readRuntimeImport?_append_iff more).2 hread] at h
  cases h

/-- What is behind a call that imports the runtime module is the end of the text. -/
theorem suffix_of_readRuntimeImport? {t rest : Text} (h : readRuntimeImport? t = some rest) : rest <:+ t := by
  rw [readRuntimeImport?] at h
  split at h
  · next himport =>
    split at h
    · cases h
      exact (List.suffix_cons ')' rest).trans (suffix_of_readImport? himport)
    · cases h
  · cases h

/-- What is found behind a line's last call is behind a call that starts on the line. -/
theorem exists_call_of_behindRuntimeImport? {found : Option Text} {t rest : Text}
    (h : behindRuntimeImport? found t = some rest) :
    (∃ lead call, t = lead ++ call ∧ '\n' ∉ lead ∧ readRuntimeImport? call = some rest) ∨
      found = some rest := by
  induction t generalizing found with
  | nil => exact Or.inr h
  | cons c tail ih =>
    rw [behindRuntimeImport?] at h
    split at h
    · exact Or.inr h
    · next hc =>
      rcases ih h with ⟨lead, call, rfl, hlead, hcall⟩ | heq
      · exact Or.inl ⟨c :: lead, call, rfl, List.not_mem_cons_of_ne_of_not_mem (Ne.symm hc) hlead, hcall⟩
      · cases hread : readRuntimeImport? (c :: tail) with
        | none => exact Or.inr (by simpa [hread] using heq)
        | some behind =>
          obtain rfl : behind = rest := by simpa [hread] using heq
          exact Or.inl ⟨[], c :: tail, rfl, List.not_mem_nil, hread⟩

/-- What is found stays found. -/
theorem behindRuntimeImport?_some_ne_none (found t : Text) : behindRuntimeImport? (some found) t ≠ none := by
  induction t generalizing found with
  | nil => exact Option.some_ne_none found
  | cons c rest ih =>
    rw [behindRuntimeImport?]
    split
    · exact Option.some_ne_none found
    · cases readRuntimeImport? (c :: rest) with
      | none => exact ih found
      | some behind => exact ih behind

/-- Where no call is found on the first line, none is found without what follows. -/
theorem behindRuntimeImport?_eq_none_of_append {t more : Text}
    (h : behindRuntimeImport? none (t ++ more) = none) : behindRuntimeImport? none t = none := by
  induction t with
  | nil => rfl
  | cons c tail ih =>
    rw [List.cons_append, behindRuntimeImport?] at h
    rw [behindRuntimeImport?]
    split
    · rfl
    · next hc =>
      rw [if_neg hc] at h
      have hread : readRuntimeImport? (c :: tail ++ more) = none := by
        rw [Option.eq_none_iff_forall_ne_some]
        intro rest hread
        rw [List.cons_append] at hread
        rw [hread] at h
        exact behindRuntimeImport?_some_ne_none _ _ h
      rw [← List.cons_append, hread] at h
      rw [readRuntimeImport?_eq_none_of_append hread]
      exact ih h

/-- Where no call is found on the first line, none is found without the first part of the line. -/
theorem behindRuntimeImport?_of_append {lead t : Text} (hlead : '\n' ∉ lead)
    (h : behindRuntimeImport? none (lead ++ t) = none) : behindRuntimeImport? none t = none := by
  induction lead with
  | nil => exact h
  | cons c lead ih =>
    rw [List.mem_cons, not_or] at hlead
    rw [List.cons_append, behindRuntimeImport?, if_neg (Ne.symm hlead.1)] at h
    cases hread : readRuntimeImport? (c :: (lead ++ t)) with
    | none =>
      rw [hread] at h
      exact ih hlead.2 h
    | some rest =>
      rw [hread] at h
      exact absurd h (behindRuntimeImport?_some_ne_none _ _)

/-- The last call on the first line is found without what follows if it ends in front of that. -/
theorem behindRuntimeImport?_eq_some_of_append {found found' : Option Text} {t rest more : Text}
    (h : behindRuntimeImport? found (t ++ more) = some (rest ++ more))
    (hfound : found = some (rest ++ more) → found' = some rest) :
    behindRuntimeImport? found' t = some rest := by
  induction t generalizing found found' with
  | nil =>
    refine hfound ((length_lt_of_behindRuntimeImport? h).resolve_left fun hlt => ?_)
    rw [List.length_append, List.nil_append] at hlt
    omega
  | cons c tail ih =>
    rw [List.cons_append, behindRuntimeImport?] at h
    rw [behindRuntimeImport?]
    split
    · next hc =>
      rw [if_pos hc] at h
      exact hfound h
    · next hc =>
      rw [if_neg hc] at h
      refine ih h fun hlast => ?_
      rw [← List.cons_append] at hlast
      cases hread : readRuntimeImport? (c :: tail ++ more) with
      | some behind =>
        rw [hread] at hlast
        obtain rfl : behind = rest ++ more := Option.some.inj hlast
        rw [(readRuntimeImport?_append_iff more).1 hread]
        rfl
      | none =>
        rw [hread] at hlast
        rw [readRuntimeImport?_eq_none_of_append hread]
        exact hfound hlast

theorem withoutRuntimeImports_nil : withoutRuntimeImports [] = [] := by rw [withoutRuntimeImports, dif_pos rfl]

/-- The lines of a call are left out. -/
theorem withoutRuntimeImports_of_some {t rest : Text} (h : behindRuntimeImport? none t = some rest) :
    withoutRuntimeImports t = withoutRuntimeImports rest.cutLine.after := by
  have hne : t ≠ [] := by
    rintro rfl
    cases h
  rw [withoutRuntimeImports, dif_neg hne]
  split
  · next found hfound =>
    cases h.symm.trans hfound
    rfl
  · next hnone => cases h.symm.trans hnone

/-- A first line without a call is kept. -/
theorem withoutRuntimeImports_line {line rest : Text} (hline : line.OnOneLine)
    (hend : (∃ front, line = front ++ ['\n']) ∨ rest = [])
    (h : behindRuntimeImport? none (line ++ rest) = none) :
    withoutRuntimeImports (line ++ rest) = line ++ withoutRuntimeImports rest := by
  by_cases hne : line ++ rest = []
  · obtain ⟨rfl, rfl⟩ := List.append_eq_nil_iff.1 hne
    rfl
  rw [withoutRuntimeImports, dif_neg hne]
  split
  · next found hfound => cases h.symm.trans hfound
  · rw [Text.cutLine_append hline hend]

/-- Part of a text lies on the lines of a call that imports the runtime module: between the start of the
line on which the call starts and the end of the line on which it ends. -/
def LiesOnImportLines (before piece after : Text) : Prop :=
  ∃ front lead call rest,
    before ++ (piece ++ after) = front ++ (lead ++ call) ∧ (∀ c ∈ front.getLast?, c = '\n') ∧
      '\n' ∉ lead ∧ readRuntimeImport? call = some rest ∧ front <+: before ∧ rest.cutLine.after <:+ after

/-- The lines in front make no difference. -/
theorem LiesOnImportLines.of_lines {lines before piece after : Text} (h : LiesOnImportLines before piece after)
    (hlines : ∃ front, lines = front ++ ['\n']) : LiesOnImportLines (lines ++ before) piece after := by
  obtain ⟨front, lead, call, rest, hwhole, hfront, hlead, hcall, hbefore, hafter⟩ := h
  refine ⟨lines ++ front, lead, call, rest, ?_, fun c hc => ?_, hlead, hcall,
    (List.prefix_append_right_inj lines).2 hbefore, hafter⟩
  · rw [List.append_assoc, hwhole, List.append_assoc]
  · obtain ⟨line, rfl⟩ := hlines
    cases front with
    | nil => simpa [eq_comm] using hc
    | cons d front =>
      rw [List.getLast?_append_of_ne_nil _ (List.cons_ne_nil d front)] at hc
      exact hfront c hc

section LeftOut

variable {piece t before after : Text} (hnewline : '\n' ∉ piece) (hne : piece ≠ [])
include hnewline hne

/-- A text without newlines that is left when the imports of the runtime module are left out was there
before. -/
theorem occurs_of_withoutRuntimeImports (h : withoutRuntimeImports t = before ++ (piece ++ after)) :
    ∃ before after, t = before ++ (piece ++ after) := by
  fun_induction withoutRuntimeImports t generalizing before after with
  | case1 => exact absurd (List.append_eq_nil_iff.1 (List.append_eq_nil_iff.1 h.symm).2).1 hne
  | case2 t hnonempty rest hfound ih =>
    obtain ⟨front, back, hrest⟩ := ih h
    obtain ⟨lead, call, rfl, -, hcall⟩ := (exists_call_of_behindRuntimeImport? hfound).resolve_right (by simp)
    obtain ⟨passed, rfl⟩ := suffix_of_readRuntimeImport? hcall
    refine ⟨lead ++ (passed ++ (rest.cutLine.before ++ front)), back, ?_⟩
    rw [List.append_assoc, List.append_assoc, List.append_assoc, ← hrest, ← Cut.whole, rest.cutLine_cases.1]
  | case3 t hnonempty hnone ih =>
    obtain ⟨hwhole, hline⟩ := t.cutLine_cases
    have hline' : (∃ front, t.cutLine.before = front ++ ['\n']) ∨
        withoutRuntimeImports t.cutLine.after = [] :=
      hline.imp_right fun hnil => by rw [hnil, withoutRuntimeImports_nil]
    rcases Text.occurs_in_lines_or_behind hnewline hline' h with ⟨gap, hline, -⟩ | ⟨gap, -, hrest, -⟩
    · exact ⟨before, gap ++ t.cutLine.after, hwhole.symm.trans (by rw [Cut.whole, hline]; simp)⟩
    · obtain ⟨front, back, hafter⟩ := ih hrest
      exact ⟨t.cutLine.before ++ front, back, by rw [List.append_assoc, ← hafter, ← Cut.whole, hwhole]⟩

/-- A part of a text without newlines is left when the imports of the runtime module are left out, unless it
lies on the lines of such an import. It then stands between what is left of the text in front of it and of
the text behind it. -/
theorem withoutRuntimeImports_beside (h : t = before ++ (piece ++ after)) :
    withoutRuntimeImports t = withoutRuntimeImports before ++ (piece ++ withoutRuntimeImports after) ∨
      LiesOnImportLines before piece after := by
  fun_induction withoutRuntimeImports t generalizing before with
  | case1 => exact absurd (List.append_eq_nil_iff.1 (List.append_eq_nil_iff.1 h.symm).2).1 hne
  | case2 t hnonempty rest hfound ih =>
    obtain ⟨lead, call, rfl, hlead, hcall⟩ :=
      (exists_call_of_behindRuntimeImport? hfound).resolve_right (by simp)
    obtain ⟨passed, rfl⟩ := suffix_of_readRuntimeImport? hcall
    obtain ⟨hrest, hline⟩ := rest.cutLine_cases
    have hlines : (∃ front, lead ++ (passed ++ rest.cutLine.before) = front ++ ['\n']) ∨
        rest.cutLine.after = [] := by
      refine hline.imp_left ?_
      rintro ⟨front, hfront⟩
      exact ⟨lead ++ (passed ++ front), by rw [hfront]; simp⟩
    have hsplit : lead ++ (passed ++ rest.cutLine.before) ++ rest.cutLine.after =
        before ++ (piece ++ after) := by
      rw [← h, List.append_assoc, List.append_assoc, ← Cut.whole, hrest]
    -- All lines up to the one on which the call ends are left out: what starts on them lies on them.
    rcases Text.occurs_in_lines_or_behind hnewline hlines hsplit with
      ⟨gap, -, hafter⟩ | ⟨gap, rfl, hbehind, hends⟩
    · exact Or.inr ⟨[], lead, passed ++ rest, rest, h.symm, by simp, hlead, hcall, List.nil_prefix,
        gap, hafter.symm⟩
    · refine (ih hbehind).imp (fun hleft => ?_) fun hlies => hlies.of_lines hends
      have hmore : rest = rest.cutLine.before ++ gap ++ (piece ++ after) := by
        rw [List.append_assoc, ← hbehind, ← Cut.whole, hrest]
      have hfirst : behindRuntimeImport? none (lead ++ (passed ++ rest.cutLine.before) ++ gap) =
          some (rest.cutLine.before ++ gap) := by
        rw [h] at hfound
        have hfound := hfound.trans (congrArg some hmore)
        exact behindRuntimeImport?_eq_some_of_append hfound fun hnone => absurd hnone (by simp)
      have hended := hline.resolve_right fun hnil => by simp [hnil, hne] at hbehind
      rw [withoutRuntimeImports_of_some hfirst,
        Text.cutLine_append rest.onOneLine_cutLine (Or.inl hended)]
      exact hleft
  | case3 t hnonempty hnone ih =>
    obtain ⟨hwhole, hline⟩ := t.cutLine_cases
    rw [← hwhole, Cut.whole] at h hnone
    have honeLine := t.onOneLine_cutLine
    rcases Text.occurs_in_lines_or_behind hnewline hline h with ⟨gap, hin, rfl⟩ | ⟨gap, rfl, hbehind, hends⟩
    · obtain ⟨hbefore, hgap, hgapEnd⟩ := Text.beside_on_line honeLine hline hnewline hne hin
      have hfirst : withoutRuntimeImports before = before := by
        have hkept : behindRuntimeImport? none (before ++ []) = none := by
          rw [hin, List.append_assoc] at hnone
          rw [List.append_nil]
          exact behindRuntimeImport?_eq_none_of_append hnone
        have hself := withoutRuntimeImports_line (fun hmem => hbefore (List.dropLast_subset _ hmem))
          (Or.inr rfl) hkept
        rwa [withoutRuntimeImports_nil, List.append_nil] at hself
      have hlast : withoutRuntimeImports (gap ++ t.cutLine.after) =
          gap ++ withoutRuntimeImports t.cutLine.after := by
        refine withoutRuntimeImports_line hgap hgapEnd ?_
        rw [hin, ← List.append_assoc, List.append_assoc] at hnone
        refine behindRuntimeImport?_of_append (fun hmem => ?_) hnone
        exact (List.mem_append.1 hmem).elim hbefore hnewline
      left
      rw [hfirst, hlast, hin, List.append_assoc, List.append_assoc]
    · have hbefore : withoutRuntimeImports (t.cutLine.before ++ gap) =
          t.cutLine.before ++ withoutRuntimeImports gap := by
        refine withoutRuntimeImports_line honeLine (Or.inl hends) ?_
        rw [hbehind, ← List.append_assoc] at hnone
        exact behindRuntimeImport?_eq_none_of_append hnone
      refine (ih hbehind).imp (fun hleft => ?_) fun hlies => hlies.of_lines hends
      rw [hleft, hbefore, List.append_assoc]

end LeftOut

end ClassFlattening
