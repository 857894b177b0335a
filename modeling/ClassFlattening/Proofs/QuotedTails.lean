import ClassFlattening.Proofs.SettledMembers

/-!
# What a quote leaves undecided

Names, qualifiers and the signs behind them are told by plain searches that know nothing of literals. No name has
a quote in it, so behind the first quote of a text there is nothing left that they could find: two texts that
agree up to a quote start like the same member, have the same names, and have a type or a value or have none.
-/

namespace ClassFlattening

namespace Text

/-- Two texts agree up to a quote: they are the same, or the same up to and with some quote in them. -/
def AgreeToQuote (s t : Text) : Prop :=
  s = t ∨ ∃ front quote x y, isQuote quote = true ∧ s = front ++ quote :: x ∧ t = front ++ quote :: y

section Quotes

variable {quote : Char} {s t w : Text}

/-- A quote is no character of an identifier, no blank and no slash. -/
theorem sign_of_isQuote (h : isQuote quote = true) :
    isIdentChar quote = false ∧ isBlank quote = false ∧ quote ≠ '/' := by
  rw [isQuote, Bool.or_eq_true, beq_iff_eq, beq_iff_eq] at h
  rcases h with rfl | rfl <;> decide

/-- A text with a quote in it is not a name. -/
theorem isIdentifier_of_quote_mem (h : isQuote quote = true) (hmem : quote ∈ t) : isIdentifier t = false := by
  rw [Bool.eq_false_iff]
  intro hname
  have hchar := isIdentChar_of_mem hname hmem
  rw [(sign_of_isQuote h).1] at hchar
  cases hchar

/-- Trimming leaves quotes. -/
theorem quote_mem_trim (h : isQuote quote = true) (hmem : quote ∈ t) : quote ∈ t.trim := by
  obtain ⟨front, back, rfl⟩ := List.append_of_mem hmem
  rw [trim_append_cons (sign_of_isQuote h).2.1]
  exact List.mem_append_right _ List.mem_cons_self

end Quotes

namespace AgreeToQuote

variable {s t w : Text} {c : Char}

theorem refl (t : Text) : AgreeToQuote t t := Or.inl rfl

theorem symm (h : AgreeToQuote s t) : AgreeToQuote t s := by
  rcases h with rfl | ⟨front, quote, x, y, hquote, hs, ht⟩
  · exact .inl rfl
  · exact .inr ⟨front, quote, y, x, hquote, ht, hs⟩

/-- Texts that agree up to a quote start like the same member. -/
theorem startOf_eq (h : AgreeToQuote s t) : startOf s = startOf t := by
  rcases h with rfl | ⟨front, quote, x, y, hquote, rfl, rfl⟩
  · rfl
  · obtain ⟨hident, hblank, hslash⟩ := sign_of_isQuote hquote
    exact startOf_append_cons hident hblank hslash front x y

/-- A text without a quote agrees with itself only. -/
theorem eq_iff (h : AgreeToQuote s t) (hw : ∀ c ∈ w, isQuote c = false) : s = w ↔ t = w := by
  rcases h with rfl | ⟨front, quote, x, y, hquote, rfl, rfl⟩
  · rfl
  · have hne (x : Text) : front ++ quote :: x ≠ w := by
      rintro rfl
      rw [hw quote (by simp)] at hquote
      cases hquote
    simp only [hne]

/-- Texts that agree up to a quote are empty or not. -/
theorem isEmpty_eq (h : AgreeToQuote s t) : s.isEmpty = t.isEmpty := by
  rw [Bool.eq_iff_iff, List.isEmpty_iff, List.isEmpty_iff]
  exact h.eq_iff (by simp)

/-- Texts that agree up to a quote agree up to it when they are trimmed. -/
theorem trim (h : AgreeToQuote s t) : AgreeToQuote s.trim t.trim := by
  rcases h with rfl | ⟨front, quote, x, y, hquote, rfl, rfl⟩
  · exact .refl _
  · have hblank := (sign_of_isQuote hquote).2.1
    rw [trim_append_cons hblank, trim_append_cons hblank]
    exact .inr ⟨_, quote, _, _, hquote, rfl, rfl⟩

/-- Texts that agree up to a quote have the same qualifiers. -/
theorem dropQualifiers (h : AgreeToQuote s t) (words : List Text) :
    AgreeToQuote (s.dropQualifiers words) (t.dropQualifiers words) := by
  rcases h with rfl | ⟨front, quote, x, y, hquote, rfl, rfl⟩
  · exact .refl _
  · obtain ⟨hident, hblank, -⟩ := sign_of_isQuote hquote
    rw [dropQualifiers_append_cons hident hblank, dropQualifiers_append_cons hident hblank]
    exact .inr ⟨_, quote, _, _, hquote, rfl, rfl⟩

/-- Texts that agree up to a quote agree up to it in front of the first characters of a kind. -/
theorem takeWhile (h : AgreeToQuote s t) {p : Char → Bool} (hp : ∀ c, isQuote c = true → p c = true) :
    AgreeToQuote (s.takeWhile p) (t.takeWhile p) := by
  rcases h with rfl | ⟨front, quote, x, y, hquote, rfl, rfl⟩
  · exact .refl _
  · rw [List.takeWhile_append, List.takeWhile_append]
    split
    · rw [List.takeWhile_cons_of_pos (hp quote hquote), List.takeWhile_cons_of_pos (hp quote hquote)]
      exact .inr ⟨front, quote, _, _, hquote, rfl, rfl⟩
    · exact .refl _

/-- Bindings that agree up to a quote have names that do. -/
theorem bindingName (h : AgreeToQuote s t) : AgreeToQuote (bindingName s) (bindingName t) := by
  refine ((h.dropQualifiers _).takeWhile fun c hc => ?_).trim
  rw [bne_iff_ne]
  rintro rfl
  cases hc

/-- A sign behind which texts that agree up to a quote are cut: it is in front of the quote and they agree up to it
behind the sign, or what is in front of the sign has a quote in it. -/
theorem cutAtFirst? (h : AgreeToQuote s t) (hc : isQuote c = false) :
    (s.cutAtFirst? (· == c) = none ∧ t.cutAtFirst? (· == c) = none) ∨
      (∃ front x y, s.cutAtFirst? (· == c) = some ⟨front, c :: x⟩ ∧ t.cutAtFirst? (· == c) = some ⟨front, c :: y⟩ ∧
        AgreeToQuote x y) ∨
      ∃ quote, isQuote quote = true ∧ (∀ cut ∈ s.cutAtFirst? (· == c), quote ∈ cut.before) ∧
        ∀ cut ∈ t.cutAtFirst? (· == c), quote ∈ cut.before := by
  rcases h with rfl | ⟨front, quote, x, y, hquote, rfl, rfl⟩
  · cases hcut : s.cutAtFirst? (· == c) with
    | none => exact .inl ⟨rfl, rfl⟩
    | some cut =>
      have hcons := (eq_of_cutAtFirst? hcut).2
      have hsome : some cut = some ⟨cut.before, c :: cut.behind⟩ := by rw [← hcons]
      exact .inr (.inl ⟨_, _, _, hsome, hsome, .refl _⟩)
  · cases hfront : front.cutAtFirst? (· == c) with
    | some cut =>
      have hcons := (eq_of_cutAtFirst? hfront).2
      refine .inr (.inl ⟨cut.before, cut.behind ++ quote :: x, cut.behind ++ quote :: y, ?_, ?_,
        .inr ⟨_, quote, x, y, hquote, rfl, rfl⟩⟩)
      · rw [cutAtFirst?_append_of_some hfront, hcons]
        rfl
      · rw [cutAtFirst?_append_of_some hfront, hcons]
        rfl
    | none =>
      have hpassed : ∀ d ∈ front ++ [quote], (d == c) = false := by
        intro d hd
        rcases List.mem_append.1 hd with hd | hd
        · exact forall_of_cutAtFirst?_eq_none hfront d hd
        · rw [List.mem_singleton] at hd
          rw [beq_eq_false_iff_ne, hd]
          rintro rfl
          rw [hc] at hquote
          cases hquote
      have hcut (z : Text) : ∀ cut ∈ (front ++ quote :: z).cutAtFirst? (· == c), quote ∈ cut.before := by
        intro cut hcut
        rw [← List.singleton_append, ← List.append_assoc, cutAtFirst?_append hpassed, Option.mem_def,
          Option.map_eq_some_iff] at hcut
        obtain ⟨found, -, rfl⟩ := hcut
        simp
      exact .inr (.inr ⟨quote, hquote, hcut x, hcut y⟩)

/-- Texts that agree up to a quote agree up to it without a comment at their ends. -/
theorem dropTrailingComment (h : AgreeToQuote s t) :
    AgreeToQuote s.dropTrailingComment t.dropTrailingComment := by
  rcases h with rfl | ⟨front, quote, x, y, hquote, rfl, rfl⟩
  · exact .refl _
  · have hslash : quote ∉ "//".toList := by simpa using (sign_of_isQuote hquote).2.2
    have hcut (z : Text) := cutAtText?_append_cons (s := front) (t := z) hslash (by decide)
    cases hfront : front.cutAtText? "//".toList with
    | some cut =>
      simp only [Text.dropTrailingComment, hcut, hfront]
      split
      · exact .inr ⟨front, quote, x, y, hquote, rfl, rfl⟩
      · exact .refl _
    | none =>
      have hdrop (z : Text) : ∃ more, (front ++ quote :: z).dropTrailingComment = front ++ quote :: more := by
        simp only [Text.dropTrailingComment, hcut, hfront]
        cases z.cutAtText? "//".toList with
        | none => exact ⟨z, rfl⟩
        | some cut =>
          simp only [Option.map_some]
          split
          · exact ⟨z, rfl⟩
          · exact ⟨cut.before, rfl⟩
      obtain ⟨x', hx⟩ := hdrop x
      obtain ⟨y', hy⟩ := hdrop y
      exact .inr ⟨front, quote, x', y', hquote, hx, hy⟩

/-- What has a type up to a quote has one whatever is behind the quote. -/
theorem isEmpty_readTyped (h : AgreeToQuote s t) : (readTyped s).1.isEmpty = (readTyped t).1.isEmpty := by
  suffices himp : ∀ {s t : Text}, AgreeToQuote s t → (readTyped s).1 = [] → (readTyped t).1 = [] by
    rw [Bool.eq_iff_iff, List.isEmpty_iff, List.isEmpty_iff]
    exact ⟨himp h, himp h.symm⟩
  intro s t h hs
  rcases h with rfl | ⟨front, quote, x, y, hquote, rfl, rfl⟩
  · exact hs
  · obtain ⟨-, hblank, -⟩ := sign_of_isQuote hquote
    rw [readTyped] at hs
    split at hs
    · next typed hcut =>
      obtain ⟨hwhole, hpass⟩ := passable_of_cutAtTopLevel? rfl (by decide) hcut
      have hequals : quote ≠ '=' := by
        rintro rfl
        cases hquote
      have hbefore : quote ∉ typed.before := by
        intro hmem
        obtain ⟨a, b, hab⟩ := List.append_of_mem hmem
        rw [hab, trim_append_cons hblank] at hs
        simp at hs
      -- so the sign of equality is in front of the quote
      obtain ⟨more, rfl⟩ : ∃ more, front = typed.before ++ '=' :: more := by
        rcases List.append_eq_append_iff.1 hwhole with ⟨mid, hmid, hrest⟩ | ⟨mid, hmid, hrest⟩
        · cases mid with
          | nil => exact absurd (List.cons.inj hrest).1 hequals
          | cons d mid => exact absurd (hmid ▸ (List.cons.inj hrest).1 ▸ by simp) hbefore
        · cases mid with
          | nil => exact absurd (List.cons.inj hrest).1.symm hequals
          | cons d mid => exact ⟨mid, (List.cons.inj hrest).1 ▸ hmid⟩
      have hcut' : (typed.before ++ '=' :: (more ++ quote :: y)).cutAtTopLevel? (· == '=') =
          some ⟨typed.before, '=' :: (more ++ quote :: y)⟩ :=
        (cutAtTopLevel?_eq_iff (by simp) rfl (by decide) _).2 hpass
      rw [List.append_assoc, List.cons_append, readTyped, hcut']
      exact hs
    · -- a quote is left when blanks are trimmed
      rw [trim_append_cons hblank] at hs
      simp at hs

end AgreeToQuote

end Text

end ClassFlattening
