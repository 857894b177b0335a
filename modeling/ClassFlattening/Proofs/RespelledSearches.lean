import ClassFlattening.Proofs.Respelling

/-!
# Searches in texts that are spelt alike

A search of the code that passes every character of an identifier passes a word in whatever spelling, and
what it reads behind the word does not depend on the spelling either. So it stops at corresponding signs of
texts that are spelt alike. Where it stops does not depend on what stands behind the sign: this is shown
together with the change of spelling, so that a text may be cut off behind the place that was found.
-/

namespace ClassFlattening

open Text

/-- Every character of an identifier is passed, and no state tells that it was there. -/
def IgnoresWords {σ : Type} (verdict : σ → Char → Verdict σ) : Prop :=
  ∀ state c, isIdentChar c = true → verdict state c = .pass state

/-- A character that is not the one of an identifier is another. -/
theorem ne_of_isIdentChar {c d : Char} (hc : isIdentChar c = true) (hd : isIdentChar d = false) :
    c ≠ d := by
  rintro rfl
  rw [hc] at hd
  cases hd

/-- The search for a closing bracket ignores words. -/
theorem ignoresWords_matchingVerdict {opening closing : Char} (hopening : isIdentChar opening = false)
    (hclosing : isIdentChar closing = false) : IgnoresWords (matchingVerdict opening closing) := by
  intro depth c hc
  rw [matchingVerdict, if_neg (ne_of_isIdentChar hc hopening), if_neg (ne_of_isIdentChar hc hclosing)]

/-- The search outside all brackets ignores words if no target is a character of an identifier. -/
theorem ignoresWords_topLevelVerdict {isTarget : Char → Bool}
    (htarget : ∀ c, isIdentChar c = true → isTarget c = false) :
    IgnoresWords (topLevelVerdict isTarget) := by
  intro depth c hc
  have hne {d : Char} (hd : isIdentChar d = false) : (c == d) = false :=
    beq_eq_false_iff_ne.2 (ne_of_isIdentChar hc hd)
  have hopening : isOpening c = false := by
    simp only [isOpening, hne (d := '(') (by decide), hne (d := '[') (by decide),
      hne (d := '{') (by decide), Bool.or_self]
  have hclosing : isClosing c = false := by
    simp only [isClosing, hne (d := ')') (by decide), hne (d := ']') (by decide),
      hne (d := '}') (by decide), Bool.or_self]
  simp only [topLevelVerdict, htarget c hc, hopening, hclosing, Bool.and_false, Bool.false_eq_true,
    if_false]

section BodyOpen

variable {t passed : Text}

/-- A brace that stands behind no error set's word opens the body. -/
theorem cutAtBodyOpen?_of_plain {cut : Cut} (hfound : t.cutAtTopLevel? (· == '{') = some cut)
    (hword : endsWithWord (cut.before.reverse ++ passed) "error".toList = false) :
    cutAtBodyOpen? t passed = some cut := by
  rw [cutAtBodyOpen?]
  split
  · next hnone =>
    rw [hfound] at hnone
    cases hnone
  · next hsome =>
    rw [hfound] at hsome
    cases hsome
    rw [if_neg (by rw [hword]; exact Bool.false_ne_true)]

/-- The braces of an error set are stepped over. -/
theorem cutAtBodyOpen?_of_errorSet {p names rest : Text}
    (hfound : cutAtTopLevel? (p ++ '{' :: (names ++ '}' :: rest)) (· == '{') =
      some ⟨p, '{' :: (names ++ '}' :: rest)⟩)
    (hword : endsWithWord (p.reverse ++ passed) "error".toList = true)
    (hset : cutAtMatching? ('{' :: names ++ '}' :: rest) '{' '}' = some ⟨'{' :: names, '}' :: rest⟩) :
    cutAtBodyOpen? (p ++ '{' :: (names ++ '}' :: rest)) passed =
      (cutAtBodyOpen? rest (('{' :: names ++ ['}']).reverse ++ (p.reverse ++ passed))).map fun cut =>
        ⟨p ++ ('{' :: names ++ ['}'] ++ cut.before), cut.after⟩ := by
  rw [cutAtBodyOpen?]
  split
  · next hnone =>
    rw [hfound] at hnone
    cases hnone
  · next hsome =>
    rw [hfound] at hsome
    cases hsome
    rw [if_pos hword]
    split
    · next hnone =>
      rw [List.cons_append] at hset
      rw [hset] at hnone
      cases hnone
    · next hclosed =>
      rw [List.cons_append] at hset
      rw [hset] at hclosed
      cases hclosed
      rfl

/-- The search for the body ends at a brace that stands behind no error set's word, or goes on behind an
error set. -/
theorem cutAtBodyOpen?_cases {s x : Text}
    (h : cutAtBodyOpen? (s ++ '{' :: x) passed = some ⟨s, '{' :: x⟩) :
    (cutAtTopLevel? (s ++ '{' :: x) (· == '{') = some ⟨s, '{' :: x⟩ ∧
        endsWithWord (s.reverse ++ passed) "error".toList = false) ∨
      ∃ p names q,
        cutAtTopLevel? (p ++ '{' :: (names ++ '}' :: (q ++ '{' :: x))) (· == '{') =
            some ⟨p, '{' :: (names ++ '}' :: (q ++ '{' :: x))⟩ ∧
          endsWithWord (p.reverse ++ passed) "error".toList = true ∧
          cutAtMatching? ('{' :: names ++ '}' :: (q ++ '{' :: x)) '{' '}' =
            some ⟨'{' :: names, '}' :: (q ++ '{' :: x)⟩ ∧
          cutAtBodyOpen? (q ++ '{' :: x) (('{' :: names ++ ['}']).reverse ++ (p.reverse ++ passed)) =
            some ⟨q, '{' :: x⟩ ∧
          s = p ++ '{' :: (names ++ '}' :: q) := by
  rw [cutAtBodyOpen?] at h
  split at h
  · cases h
  · next cut hfound =>
    obtain ⟨p, after⟩ := cut
    have hwhole := whole_of_cutInCode _ hfound
    dsimp only at h
    by_cases hword : endsWithWord (p.reverse ++ passed) "error".toList = true
    · rw [if_pos hword] at h
      split at h
      · cases h
      · next set hset =>
        obtain ⟨⟨q, behind⟩, hrest, heq⟩ := Option.map_eq_some_iff.1 h
        obtain ⟨hs, hbehind⟩ := Cut.mk.inj heq
        obtain ⟨names, hnames⟩ := exists_before_of_cutAtMatching? (by decide) hset
        obtain ⟨rest, hclosing⟩ := exists_of_cutAtMatching? hset
        have hsetWhole := whole_of_cutAtMatching? hset
        have hrestWhole := whole_of_cutAtBodyOpen? hrest
        obtain ⟨front, back⟩ := set
        dsimp only at hnames hclosing hs hbehind
        subst hnames hclosing hbehind
        rw [Cut.whole] at hrestWhole hsetWhole
        dsimp only at hrestWhole hsetWhole
        change q ++ '{' :: x = rest at hrestWhole
        subst hrestWhole hsetWhole
        rw [← hwhole] at hfound
        exact Or.inr ⟨p, names, q, hfound, hword, hset, hrest, by simp [← hs, Cut.through]⟩
    · rw [if_neg hword] at h
      cases h
      exact Or.inl ⟨hfound, Bool.eq_false_iff.2 hword⟩

/-- The brace behind a text opens the body of a function: it stands behind no error set's word, or behind
the braces of an error set and opens the body there. The text in front of the one searched comes first. -/
inductive OpensBody (x : Text) : Text → Text → Prop
  | plain {front s : Text} (hfound : cutAtTopLevel? (s ++ '{' :: x) (· == '{') = some ⟨s, '{' :: x⟩)
      (hword : endsWithWord (front ++ s).reverse "error".toList = false) : OpensBody x front s
  | errorSet {front p names q : Text}
      (hfound : cutAtTopLevel? (p ++ '{' :: (names ++ '}' :: (q ++ '{' :: x))) (· == '{') =
        some ⟨p, '{' :: (names ++ '}' :: (q ++ '{' :: x))⟩)
      (hword : endsWithWord (front ++ p).reverse "error".toList = true)
      (hset : cutAtMatching? ('{' :: names ++ '}' :: (q ++ '{' :: x)) '{' '}' =
        some ⟨'{' :: names, '}' :: (q ++ '{' :: x)⟩)
      (rest : OpensBody x (front ++ p ++ ('{' :: names ++ ['}'])) q) :
      OpensBody x front (p ++ '{' :: (names ++ '}' :: q))

/-- What was passed behind an error set, last character first. -/
theorem reverse_append_errorSet (front p names : Text) :
    (front ++ p ++ ('{' :: names ++ ['}'])).reverse =
      ('{' :: names ++ ['}']).reverse ++ (p.reverse ++ front.reverse) := by
  rw [← List.reverse_append, ← List.reverse_append]

/-- The search stops at the brace that opens the body. -/
theorem OpensBody.cutAtBodyOpen? {x front s : Text} (h : OpensBody x front s) :
    Text.cutAtBodyOpen? (s ++ '{' :: x) front.reverse = some ⟨s, '{' :: x⟩ := by
  induction h with
  | plain hfound hword =>
    rw [List.reverse_append] at hword
    exact cutAtBodyOpen?_of_plain hfound hword
  | errorSet hfound hword hset _ ih =>
    rw [List.reverse_append] at hword
    have hstep := cutAtBodyOpen?_of_errorSet hfound hword hset
    rw [← reverse_append_errorSet, ih, Option.map_some] at hstep
    simpa only [List.append_assoc, List.cons_append, List.nil_append] using hstep

/-- The brace at which the search stops opens the body. -/
theorem opensBody_of_cutAtBodyOpen? {x front s : Text}
    (h : cutAtBodyOpen? (s ++ '{' :: x) front.reverse = some ⟨s, '{' :: x⟩) : OpensBody x front s := by
  induction hlength : s.length using Nat.strongRecOn generalizing s front with
  | ind n ih =>
    subst hlength
    rcases cutAtBodyOpen?_cases h with ⟨hfound, hword⟩ | ⟨p, names, q, hfound, hword, hset, hrest, rfl⟩
    · rw [← List.reverse_append] at hword
      exact .plain hfound hword
    · rw [← List.reverse_append] at hword
      rw [← reverse_append_errorSet] at hrest
      have hlonger : q.length < (p ++ '{' :: (names ++ '}' :: q)).length := by
        simp only [List.length_append, List.length_cons]
        omega
      exact .errorSet hfound hword hset (ih q.length hlonger hrest rfl)

end BodyOpen

section Search

variable {σ : Type} {verdict : σ → Char → Verdict σ} {mode : Mode} {state : σ}

/-- A search that ignores words passes a word as a whole. -/
theorem cutWhere_word (hverdict : IgnoresWords verdict) (hmode : mode.IsProper) {w : Text}
    (hw : w.IsWord) (t : Text) :
    cutWhere (codeVerdict verdict) (mode, state) (w ++ t) =
      (cutWhere (codeVerdict verdict) (mode.behindWord, state) t).map fun cut =>
        ⟨w ++ cut.before, cut.after⟩ := by
  obtain ⟨hne, hchars⟩ := hw
  induction w generalizing mode with
  | nil => exact absurd rfl hne
  | cons c w ih =>
    have hc := hchars c List.mem_cons_self
    have hpass : codeVerdict verdict (mode, state) c (w ++ t) = .pass (mode.behindWord, state) := by
      rw [codeVerdict, Mode.step, Mode.read_of_isIdentChar hmode hc (Mode.isLineStart_of_isIdentChar hc)]
      simp only [hverdict state c hc, ite_self]
    rw [List.cons_append, cutWhere_cons, hpass]
    dsimp only
    cases w with
    | nil => rfl
    | cons d w =>
      rw [ih hmode.behindWord (List.cons_ne_nil d w) fun e he => hchars e (List.mem_cons_of_mem c he),
        Mode.behindWord_behindWord, Option.map_map]
      rfl

/-- A sign that starts no line is read alike in front of every text. -/
theorem codeVerdict_congr {c : Char} (hc : isLineStart c = false) (s t : Text) :
    codeVerdict verdict (mode, state) c s = codeVerdict verdict (mode, state) c t := by
  have hstep : mode.step c s = mode.step c t := by
    apply Mode.read_congr
    rw [hc, Bool.false_and, Bool.false_and]
  rw [codeVerdict, codeVerdict, hstep]

/-- A search goes on in a proper mode. -/
theorem isProper_of_codeVerdict (hmode : mode.IsProper) {c : Char} {t : Text} {next : Mode × σ}
    (h : codeVerdict verdict (mode, state) c t = .pass next) : next.1.IsProper := by
  have hproper : (mode.step c t).2.IsProper := hmode.read _ c t
  obtain ⟨hnext, -⟩ := codeVerdict_eq_pass_iff.1 h
  exact hnext ▸ hproper

/-- What was passed in front of a cut is passed in front of no other. -/
theorem eq_some_of_map_before {found : Option Cut} {w s a : Text}
    (h : (found.map fun cut => (⟨w ++ cut.before, cut.after⟩ : Cut)) = some ⟨w ++ s, a⟩) :
    found = some ⟨s, a⟩ := by
  obtain ⟨⟨before, after⟩, hfound, heq⟩ := Option.map_eq_some_iff.1 h
  rw [Cut.mk.injEq] at heq
  have hbefore : before = s := List.append_cancel_left heq.1
  have hafter : after = a := heq.2
  rw [hfound, hbefore, hafter]

namespace Respelled

variable {old new s t : Text} {c : Char}

/-- A sign is doubled in both texts or in neither, if the same sign stands behind them. -/
theorem isDoubled_append (h : Respelled old new s t) {d : Char} (hd : isIdentChar d = false)
    (x y : Text) : isDoubled d (s ++ c :: x) = isDoubled d (t ++ c :: y) := by
  have hhead := h.head?_beq hd
  have hempty := h.isEmpty_eq
  cases s with
  | nil =>
    obtain rfl : t = [] := List.isEmpty_iff.1 hempty.symm
    rfl
  | cons e s =>
    cases t with
    | nil => cases hempty
    | cons f t => exact hhead

/-- A search that stops at a sign behind a text stops at the sign behind every text that is spelt alike,
whatever follows. -/
theorem cutWhere_eq (h : Respelled old new s t) (hverdict : IgnoresWords verdict)
    (hmode : mode.IsProper) (hc : isLineStart c = false) {x y : Text}
    (hcut : cutWhere (codeVerdict verdict) (mode, state) (s ++ c :: x) = some ⟨s, c :: x⟩) :
    cutWhere (codeVerdict verdict) (mode, state) (t ++ c :: y) = some ⟨t, c :: y⟩ := by
  induction h generalizing mode state with
  | nil =>
    rw [List.nil_append, cutWhere_cons] at hcut ⊢
    rw [codeVerdict_congr hc y x]
    cases hstop : codeVerdict verdict (mode, state) c x with
    | stop => rfl
    | fail => simp [hstop] at hcut
    | pass next => simp [hstop] at hcut
  | @sign d s t hd rest ih =>
    have hstep : mode.step d (t ++ c :: y) = mode.step d (s ++ c :: x) := by
      apply Mode.read_congr
      rw [rest.isDoubled_append hd x y]
    rw [List.cons_append, cutWhere_cons] at hcut ⊢
    have heq : codeVerdict verdict (mode, state) d (t ++ c :: y) =
        codeVerdict verdict (mode, state) d (s ++ c :: x) := by
      rw [codeVerdict, codeVerdict, hstep]
    rw [heq]
    cases hpass : codeVerdict verdict (mode, state) d (s ++ c :: x) with
    | stop => simp [hpass] at hcut
    | fail => simp [hpass] at hcut
    | pass next =>
      obtain ⟨nextMode, nextState⟩ := next
      rw [hpass] at hcut
      have hrest := ih (isProper_of_codeVerdict hmode hpass) (eq_some_of_map_before (w := [d]) hcut)
      dsimp only
      rw [hrest]
      rfl
  | word hv hw _ _ _ _ ih =>
    rw [List.append_assoc, cutWhere_word hverdict hmode hv] at hcut
    rw [List.append_assoc, cutWhere_word hverdict hmode hw,
      ih hmode.behindWord (eq_some_of_map_before hcut)]
    rfl

/-- A search of the code that stops at a sign stops at the sign behind every text that is spelt alike. -/
theorem cutInCode_eq (h : Respelled old new s t) (hverdict : IgnoresWords verdict)
    (hc : isLineStart c = false) {x y : Text}
    (hcut : cutInCode verdict state (s ++ c :: x) = some ⟨s, c :: x⟩) :
    cutInCode verdict state (t ++ c :: y) = some ⟨t, c :: y⟩ := by
  rw [cutInCode_eq_cutWhere] at hcut ⊢
  exact h.cutWhere_eq hverdict Mode.isProper_code hc hcut

/-- The bracket that closes a text closes every text that is spelt alike. -/
theorem cutAtMatching?_eq {opening closing : Char} (h : Respelled old new s t)
    (hopening : isIdentChar opening = false) (hclosing : isIdentChar closing = false)
    (hline : isLineStart closing = false) {x y : Text}
    (hcut : cutAtMatching? (opening :: s ++ closing :: x) opening closing =
      some ⟨opening :: s, closing :: x⟩) :
    cutAtMatching? (opening :: t ++ closing :: y) opening closing =
      some ⟨opening :: t, closing :: y⟩ := by
  have hhead (u v : Text) : (opening :: u ++ v).head? = some opening := rfl
  rw [cutAtMatching?, if_pos (hhead s _)] at hcut
  rw [cutAtMatching?, if_pos (hhead t _)]
  exact (Respelled.sign hopening h).cutInCode_eq (ignoresWords_matchingVerdict hopening hclosing) hline hcut

/-- A separator outside all brackets behind a text is one behind every text that is spelt alike. -/
theorem cutAtTopLevel?_eq (h : Respelled old new s t) (hc : isIdentChar c = false)
    (hline : isLineStart c = false) {x y : Text}
    (hcut : cutAtTopLevel? (s ++ c :: x) (· == c) = some ⟨s, c :: x⟩) :
    cutAtTopLevel? (t ++ c :: y) (· == c) = some ⟨t, c :: y⟩ := by
  refine h.cutInCode_eq (ignoresWords_topLevelVerdict fun d hd => ?_) hline hcut
  exact beq_eq_false_iff_ne.2 (ne_of_isIdentChar hd hc)

/-- A separator outside all brackets has its place in every text that is spelt alike. -/
theorem cutAtTopLevel?_rel (h : Respelled old new s t) (hc : isIdentChar c = false)
    (hline : isLineStart c = false) :
    Option.Rel (fun cut cut' => Respelled old new cut.before cut'.before ∧
      Respelled old new cut.behind cut'.behind) (s.cutAtTopLevel? (· == c)) (t.cutAtTopLevel? (· == c)) := by
  have hfind {old new s t : Text} (h : Respelled old new s t) {cut : Cut}
      (hcut : s.cutAtTopLevel? (· == c) = some cut) :
      ∃ cut', t.cutAtTopLevel? (· == c) = some cut' ∧ Respelled old new cut.before cut'.before ∧
        Respelled old new cut.behind cut'.behind := by
    obtain ⟨depth, d, rest, hafter, hstop⟩ := exists_stop_of_cutInCode hcut
    have hd : d = c := by
      rw [topLevelVerdict] at hstop
      split at hstop
      · next htarget =>
        rw [Bool.and_eq_true] at htarget
        exact eq_of_beq htarget.2
      · split at hstop
        · cases hstop
        · split at hstop
          · split at hstop <;> cases hstop
          · cases hstop
    have hwhole := whole_of_cutInCode _ hcut
    obtain ⟨before, after⟩ := cut
    obtain rfl : after = c :: rest := hd ▸ hafter
    subst hwhole
    obtain ⟨s', u', rfl, hbefore, hbehind⟩ := h.exists_of_append hc
    exact ⟨⟨s', c :: u'⟩, hbefore.cutAtTopLevel?_eq hc hline hcut, hbefore, hbehind⟩
  cases hs : s.cutAtTopLevel? (· == c) with
  | some cut =>
    obtain ⟨cut', ht, hrel⟩ := hfind h hs
    rw [ht]
    exact .some hrel
  | none =>
    cases ht : t.cutAtTopLevel? (· == c) with
    | none => exact .none
    | some cut' =>
      obtain ⟨cut, hcut, _⟩ := hfind h.symm ht
      rw [hs] at hcut
      cases hcut

/-- The pieces between separators outside all brackets are spelt alike, piece by piece. -/
theorem topLevelPieces (h : Respelled old new s t) (hc : isIdentChar c = false)
    (hline : isLineStart c = false) :
    List.Forall₂ (Respelled old new) (s.topLevelPieces c) (t.topLevelPieces c) := by
  induction hlength : s.length using Nat.strongRecOn generalizing s t with
  | ind n ih =>
    subst hlength
    have hrel := h.cutAtTopLevel?_rel hc hline
    rw [Text.topLevelPieces, Text.topLevelPieces]
    split
    · next cut hcut =>
      rw [hcut] at hrel
      split
      · next cut' hcut' =>
        rw [hcut'] at hrel
        cases hrel with
        | some hboth =>
          exact .cons hboth.1.trim (ih _ (length_behind_lt_of_cutInCode hcut) hboth.2 rfl)
      · next hnone =>
        rw [hnone] at hrel
        cases hrel
    · next hnone =>
      rw [hnone] at hrel
      split
      · next cut' hcut' =>
        rw [hcut'] at hrel
        cases hrel
      · exact .cons h.trim .nil

/-- A list whose elements are spelt alike has the same first element that is not blank, in its spelling. -/
theorem splitTopLevel_head? (h : Respelled old new s t) (hc : isIdentChar c = false)
    (hline : isLineStart c = false) :
    Option.Rel (Respelled old new) (s.splitTopLevel c).head? (t.splitTopLevel c).head? := by
  have hpieces := h.topLevelPieces hc hline
  rw [splitTopLevel, splitTopLevel]
  generalize s.topLevelPieces c = pieces, t.topLevelPieces c = pieces' at hpieces ⊢
  induction hpieces with
  | nil => exact .none
  | cons hpiece _ ih =>
    rw [List.filter_cons, List.filter_cons, hpiece.isEmpty_eq]
    split
    · exact .some hpiece
    · exact ih

/-- An error set behind a text is one behind every text that is spelt alike. -/
theorem append_errorSet {names names' : Text} (h : Respelled old new s t)
    (hnames : Respelled old new names names') :
    Respelled old new (s ++ ('{' :: names ++ ['}'])) (t ++ ('{' :: names' ++ ['}'])) := by
  have hopening : isIdentChar '{' = false := by decide
  have hclosing : isIdentChar '}' = false := by decide
  have hset := (Respelled.sign hopening hnames).append (.sign hclosing .nil) (parted_of_startsInWord hclosing)
  exact h.append hset (parted_of_startsInWord hopening)

/-- The brace that opens a body opens one behind every text that is spelt alike. Neither name is the word
in front of an error set. -/
theorem opensBody (h : Respelled old new s t) (hold : "error".toList ≠ old) (hnew : "error".toList ≠ new)
    {front front' x y : Text} (hfront : Respelled old new front front') (hparted : Parted front s)
    (hopens : OpensBody x front s) : OpensBody y front' t := by
  induction hopens generalizing t front' with
  | plain hfound hword =>
    refine .plain (h.cutAtTopLevel?_eq (by decide) (by decide) hfound) ?_
    rw [← (hfront.append h hparted).endsWithWord_eq hold hnew, hword]
  | @errorSet front p names q hfound hword hset _ ih =>
    have hopening : isIdentChar '{' = false := by decide
    have hclosing : isIdentChar '}' = false := by decide
    obtain ⟨p', r', rfl, hp, hr⟩ := h.exists_of_append hopening
    obtain ⟨names', q', rfl, hnames, hq⟩ := hr.exists_of_append hclosing
    have hparted' : Parted front p := by
      cases p with
      | nil => exact parted_of_startsInWord rfl
      | cons c p => exact hparted
    have hbehind : Parted (front ++ p ++ ('{' :: names ++ ['}'])) q := by
      rw [← List.append_assoc]
      exact parted_concat hclosing _ q
    have hfronts := hfront.append hp hparted'
    have hword' : endsWithWord (front' ++ p').reverse "error".toList = true := by
      rw [← hfronts.endsWithWord_eq hold hnew, hword]
    exact .errorSet (hp.cutAtTopLevel?_eq hopening (by decide) hfound) hword'
      (hnames.cutAtMatching?_eq hopening hclosing (by decide) hset)
      (ih hq (hfronts.append_errorSet hnames) hbehind)

end Respelled

end Search

end ClassFlattening
