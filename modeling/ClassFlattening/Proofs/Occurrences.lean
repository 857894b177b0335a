import ClassFlattening.Proofs.SitePieces

/-!
# Where a pattern occurs

An occurrence of a pattern is a way to write a text as what is in front of it, the pattern and what is
behind it. The search for a pattern finds the first occurrence. An occurrence never reaches over a
character that the pattern does not have, so it lies on one side of such a character; and no occurrence
of the class marker starts inside another one.
-/

namespace ClassFlattening

namespace Text

variable {pattern : Text}

/-- No occurrence of a pattern starts in front of the one that a search finds. -/
theorem exists_cutAtText?_of_occurs (hne : pattern ≠ []) (before after : Text) :
    ∃ cut, (before ++ pattern ++ after).cutAtText? pattern = some cut ∧ cut.before <+: before := by
  induction before with
  | nil =>
    obtain ⟨c, more, rfl⟩ := List.exists_cons_of_ne_nil hne
    have hmatch : matchesAt (c :: more) c (more ++ after) = true := by
      rw [matchesAt_eq_isPrefixOf, ← List.cons_append]
      exact List.isPrefixOf_iff_prefix.2 (List.prefix_append _ _)
    refine ⟨⟨[], c :: more ++ after⟩, ?_, List.nil_prefix⟩
    rw [List.nil_append, List.cons_append, cutAtText?, cutWhere_cons, hmatch]
    rfl
  | cons c before ih =>
    obtain ⟨inner, hinner, hfront⟩ := ih
    rw [cutAtText?] at hinner ⊢
    rw [List.cons_append, List.cons_append, cutWhere_cons]
    cases matchesAt pattern c (before ++ pattern ++ after)
    · refine ⟨⟨c :: inner.before, inner.after⟩, ?_, List.cons_prefix_cons.2 ⟨rfl, hfront⟩⟩
      simp only [Bool.false_eq_true, if_false, hinner, Option.map_some]
    · exact ⟨⟨[], _⟩, rfl, List.nil_prefix⟩

/-- Every occurrence of a pattern is at or behind the one that a search finds. -/
theorem prefix_of_cutAtText? (hne : pattern ≠ []) {t before after : Text} {cut : Cut}
    (hcut : t.cutAtText? pattern = some cut) (h : t = before ++ (pattern ++ after)) :
    cut.before <+: before := by
  obtain ⟨first, hfirst, hfront⟩ := exists_cutAtText?_of_occurs hne before after
  rw [List.append_assoc, ← h, hcut] at hfirst
  cases hfirst
  exact hfront

/-- What a pattern has in front of a character that is not in it is all of the pattern. -/
theorem isPrefixOf_append_cons {s t : Text} {c : Char} (hc : c ∉ pattern) :
    pattern.isPrefixOf (s ++ c :: t) = pattern.isPrefixOf s := by
  induction pattern generalizing s with
  | nil => cases s <;> rfl
  | cons p pattern ih =>
    rw [List.mem_cons, not_or] at hc
    cases s with
    | nil =>
      rw [List.nil_append, List.isPrefixOf_cons_cons, beq_eq_false_iff_ne.2 (Ne.symm hc.1)]
      rfl
    | cons d s => rw [List.cons_append, List.isPrefixOf_cons_cons, List.isPrefixOf_cons_cons, ih hc.2]

/-- A pattern is found in front of a character that is not in it, or behind it. -/
theorem cutAtText?_append_cons {s t : Text} {c : Char} (hc : c ∉ pattern) (hne : pattern ≠ []) :
    (s ++ c :: t).cutAtText? pattern =
      match s.cutAtText? pattern with
      | some cut => some ⟨cut.before, cut.after ++ c :: t⟩
      | none => (t.cutAtText? pattern).map fun cut => ⟨s ++ c :: cut.before, cut.after⟩ := by
  induction s with
  | nil =>
    have hmatch : matchesAt pattern c t = false := by
      rw [matchesAt_eq_isPrefixOf, ← List.nil_append (c :: t), isPrefixOf_append_cons hc]
      cases pattern with
      | nil => exact absurd rfl hne
      | cons => rfl
    rw [List.nil_append, cutAtText?, cutWhere_cons, hmatch]
    rfl
  | cons d s ih =>
    have hmatch : matchesAt pattern d (s ++ c :: t) = matchesAt pattern d s := by
      rw [matchesAt_eq_isPrefixOf, matchesAt_eq_isPrefixOf, ← List.cons_append, isPrefixOf_append_cons hc]
    rw [cutAtText?] at ih ⊢
    rw [cutAtText?, List.cons_append, cutWhere_cons, cutWhere_cons, hmatch]
    cases matchesAt pattern d s with
    | true => rfl
    | false =>
      simp only [Bool.false_eq_true, if_false, ih]
      rw [cutAtText?]
      cases cutWhere (fun () c rest => if matchesAt pattern c rest then Verdict.stop else Verdict.pass ()) () s with
      | some cut => rfl
      | none =>
        rw [Option.map_map]
        rfl

/-- A pattern that is found in a text is found where more text follows. -/
theorem cutAtText?_append_of_some {s : Text} {cut : Cut} (h : s.cutAtText? pattern = some cut)
    (t : Text) : (s ++ t).cutAtText? pattern = some ⟨cut.before, cut.after ++ t⟩ := by
  induction s generalizing cut with
  | nil => cases h
  | cons c s ih =>
    rw [cutAtText?, cutWhere_cons] at h
    rw [List.cons_append, cutAtText?, cutWhere_cons]
    cases hmatch : matchesAt pattern c s with
    | true =>
      rw [hmatch] at h
      cases h
      have hmore : matchesAt pattern c (s ++ t) = true := by
        rw [matchesAt_eq_isPrefixOf, List.isPrefixOf_iff_prefix] at hmatch ⊢
        exact hmatch.trans (List.prefix_append (c :: s) t)
      rw [hmore]
      rfl
    | false =>
      simp only [hmatch, Bool.false_eq_true, if_false, Option.map_eq_some_iff] at h
      obtain ⟨inner, hinner, rfl⟩ := h
      have hinner' := ih hinner
      -- The pattern still fits behind the character, so it does not reach over the end from here.
      have hmore : matchesAt pattern c (s ++ t) = false := by
        rw [← hmatch, matchesAt_eq_isPrefixOf, matchesAt_eq_isPrefixOf, Bool.eq_iff_iff,
          List.isPrefixOf_iff_prefix, List.isPrefixOf_iff_prefix]
        obtain ⟨rest, hrest⟩ := exists_of_cutAtText? hinner
        have hlength : pattern.length ≤ (c :: s).length := by
          have hwhole := congrArg List.length (whole_of_cutWhere _ hinner)
          rw [Cut.whole, hrest, List.length_append, List.length_append] at hwhole
          rw [List.length_cons]
          omega
        exact ⟨fun hprefix => List.prefix_of_prefix_length_le hprefix (List.prefix_append (c :: s) t) hlength,
          fun hprefix => hprefix.trans (List.prefix_append (c :: s) t)⟩
      rw [hmore]
      rw [cutAtText?] at hinner'
      simp only [Bool.false_eq_true, if_false, hinner', Option.map_some]

/-- An occurrence of a pattern lies in front of a character that the pattern does not have, or behind
it. -/
theorem occurs_beside {c : Char} (hc : c ∉ pattern) {s t before after : Text}
    (h : s ++ c :: t = before ++ (pattern ++ after)) :
    (∃ gap, s = before ++ (pattern ++ gap) ∧ after = gap ++ c :: t) ∨
      ∃ gap, before = s ++ c :: gap ∧ t = gap ++ (pattern ++ after) := by
  rcases List.append_eq_append_iff.1 h with ⟨left, rfl, hright⟩ | ⟨left, rfl, hright⟩
  · cases left with
    | nil =>
      -- The pattern starts at the character, which it does not have.
      cases pattern with
      | nil => exact Or.inl ⟨[], by simp, by simpa using hright.symm⟩
      | cons p more =>
        obtain ⟨rfl, -⟩ := List.cons.inj hright
        exact absurd (List.mem_cons_self) hc
    | cons d left =>
      obtain ⟨rfl, rfl⟩ := List.cons.inj hright
      exact Or.inr ⟨left, rfl, rfl⟩
  · rcases List.append_eq_append_iff.1 hright with ⟨more, rfl, hafter⟩ | ⟨more, rfl, hafter⟩
    · exact Or.inl ⟨more, rfl, hafter⟩
    · cases more with
      | nil => exact Or.inl ⟨[], by simp, by simpa using hafter.symm⟩
      | cons d more =>
        obtain ⟨rfl, -⟩ := List.cons.inj hafter
        exact absurd (by simp) hc

/-- An occurrence of a pattern lies behind a text without the character that the pattern starts with. -/
theorem occurs_behind {s t : Text} {c : Char} {more before after : Text} (hc : c ∉ s)
    (h : s ++ t = before ++ (c :: more ++ after)) :
    ∃ gap, before = s ++ gap ∧ t = gap ++ (c :: more ++ after) := by
  induction s generalizing before with
  | nil => exact ⟨before, rfl, h⟩
  | cons d s ih =>
    rw [List.mem_cons, not_or] at hc
    cases before with
    | nil => exact absurd (List.cons.inj h).1.symm hc.1
    | cons e before =>
      rw [List.cons_append, List.cons_append, List.cons.injEq] at h
      obtain ⟨rfl, hrest⟩ := h
      obtain ⟨gap, rfl, ht⟩ := ih hc.2 hrest
      exact ⟨gap, rfl, ht⟩

end Text

/-- The class marker is not empty. -/
theorem marker_ne_nil : marker ≠ [] := List.cons_ne_nil _ _

/-- A second occurrence of the class marker starts behind the first one, since no character of the
marker but the first is the one that it starts with. -/
theorem marker_occurs_behind {s before after : Text} (hne : before ≠ [])
    (h : marker ++ s = before ++ (marker ++ after)) :
    ∃ gap, before = marker ++ gap ∧ s = gap ++ (marker ++ after) := by
  obtain ⟨c, before, rfl⟩ := List.exists_cons_of_ne_nil hne
  have hmarker : marker = 'z' :: "oop.class(".toList := rfl
  rw [hmarker] at h
  obtain ⟨hhead, htail⟩ := List.cons.inj h
  have hz : 'z' ∉ "oop.class(".toList := by decide
  have hbeside : before ++ 'z' :: ("oop.class(".toList ++ after) = [] ++ ("oop.class(".toList ++ s) :=
    htail.symm
  rcases Text.occurs_beside hz hbeside with ⟨gap, hbefore, hs⟩ | ⟨gap, hnil, -⟩
  · refine ⟨gap, ?_, ?_⟩
    · rw [hbefore, ← hhead, hmarker]
      rfl
    · rw [hs, hmarker]
      rfl
  · exact absurd hnil (by simp)

end ClassFlattening
