import ClassFlattening.Proofs.ClosedText
import ClassFlattening.Bracket

/-!
# Texts with matched brackets

A text is balanced in front of some characters if it is closed, every bracket in its code is matched
within the text and none of these characters stands in its code outside all brackets. Texts of this kind
are what a search for one of the characters passes as a whole, and inside a pair of brackets they are
passed by every search. Both follow from one walk over the code that keeps the brackets still to be
closed: the searches only count, and their counts are read off the brackets that the walk keeps.
-/

namespace ClassFlattening

namespace Text

/-- The bracket that closes an opening one. -/
def closerOf (c : Char) : Char := if c = '(' then ')' else if c = '[' then ']' else '}'

/-- The decision of a walk that follows the brackets: the state is what has to be closed, innermost
bracket first. Outside all brackets the walk stops at the characters of `ends`. -/
def nestingVerdict (ends : Char → Bool) (pending : Text) (c : Char) : Verdict Text :=
  if pending.isEmpty && ends c then .stop
  else if isOpening c then .pass (closerOf c :: pending)
  else if isClosing c then
    if pending.head? = some c then .pass pending.tail else .fail
  else .pass pending

/-- A text whose brackets are matched, without a character of `ends` outside them. -/
structure Balanced (ends : Char → Bool) (t : Text) : Prop where
  closed : t.IsClosed
  nested : passAll (nestingVerdict ends) [] t.code = some []

instance (ends : Char → Bool) (t : Text) : Decidable (t.Balanced ends) :=
  decidable_of_iff (t.IsClosed ∧ passAll (nestingVerdict ends) [] t.code = some [])
    ⟨fun h => ⟨h.1, h.2⟩, fun h => ⟨h.closed, h.nested⟩⟩

/-- Where one search passes, so does another one that its states are mapped to. -/
theorem passAll_map {σ τ : Type} {verdict : σ → Char → Verdict σ} {image : τ → Char → Verdict τ}
    (f : σ → τ)
    (hstep : ∀ state after c, verdict state c = .pass after → image (f state) c = .pass (f after))
    {state after : σ} {t : Text} (h : passAll verdict state t = some after) :
    passAll image (f state) t = some (f after) := by
  induction t generalizing state with
  | nil =>
    cases h
    rfl
  | cons c t ih =>
    rw [passAll] at h ⊢
    cases hverdict : verdict state c with
    | pass next =>
      rw [hverdict] at h
      rw [hstep state next c hverdict]
      exact ih h
    | stop => simp [hverdict] at h
    | fail => simp [hverdict] at h

section Walk

variable {ends : Char → Bool} {pending after : Text} {c : Char}

/-- What the walk does at a character that it passes. -/
theorem nestingVerdict_cases (h : nestingVerdict ends pending c = .pass after) :
    (pending.isEmpty && ends c) = false ∧
      ((isOpening c = true ∧ after = closerOf c :: pending) ∨
        (isOpening c = false ∧ isClosing c = true ∧ pending = c :: after) ∨
          (isOpening c = false ∧ isClosing c = false ∧ after = pending)) := by
  rw [nestingVerdict] at h
  split at h
  · cases h
  next hends =>
    refine ⟨Bool.eq_false_iff.2 hends, ?_⟩
    split at h
    next hopening =>
      cases h
      exact Or.inl ⟨hopening, rfl⟩
    next hopening =>
      have hopening := Bool.eq_false_iff.2 hopening
      split at h
      next hclosing =>
        split at h
        next hhead =>
          cases h
          obtain ⟨rest, rfl⟩ := List.head?_eq_some_iff.1 hhead
          exact Or.inr (Or.inl ⟨hopening, hclosing, rfl⟩)
        next => cases h
      next hclosing =>
        cases h
        exact Or.inr (Or.inr ⟨hopening, Bool.eq_false_iff.2 hclosing, rfl⟩)

/-- Where the walk passes for two kinds of characters, it passes for both. -/
theorem nestingVerdict_or {inner : Char → Bool} {other : Text}
    (h : nestingVerdict ends pending c = .pass after)
    (hinner : nestingVerdict inner pending c = .pass other) :
    other = after ∧ nestingVerdict (fun c => ends c || inner c) pending c = .pass after := by
  obtain ⟨hends, -⟩ := nestingVerdict_cases h
  obtain ⟨hends', -⟩ := nestingVerdict_cases hinner
  have hboth : (pending.isEmpty && (ends c || inner c)) = false := by
    rw [Bool.and_or_distrib_left, hends, hends']
    rfl
  simp only [nestingVerdict, hends, hends', hboth] at h hinner ⊢
  rw [h] at hinner
  cases hinner
  exact ⟨rfl, h⟩

/-- Inside brackets the walk does not stop. -/
theorem nestingVerdict_inside {outer : Text} (houter : outer ≠ []) {inner : Char → Bool}
    (h : nestingVerdict inner pending c = .pass after) :
    nestingVerdict ends (pending ++ outer) c = .pass (after ++ outer) := by
  have hfull : (pending ++ outer).isEmpty = false := by simp [houter]
  obtain ⟨-, ⟨hopening, rfl⟩ | ⟨hopening, hclosing, rfl⟩ | ⟨hopening, hclosing, rfl⟩⟩ :=
    nestingVerdict_cases h
  · simp [nestingVerdict, hfull, hopening]
  · simp [nestingVerdict, hopening, hclosing]
  · simp [nestingVerdict, hfull, hopening, hclosing]

/-- A search outside all brackets counts what the walk has still to close. -/
theorem topLevelVerdict_of_nestingVerdict (h : nestingVerdict ends pending c = .pass after) :
    topLevelVerdict ends pending.length c = .pass after.length := by
  obtain ⟨hends, hcases⟩ := nestingVerdict_cases h
  have hstop : (decide (pending.length = 0) && ends c) = false := by
    cases pending with
    | nil => exact hends
    | cons d pending => rfl
  rw [topLevelVerdict, hstop]
  rcases hcases with ⟨hopening, rfl⟩ | ⟨hopening, hclosing, rfl⟩ | ⟨hopening, hclosing, rfl⟩
  · simp [hopening]
  · simp [hopening, hclosing]
  · simp [hopening, hclosing]

/-- The closing brackets of two kinds differ. -/
theorem closerOf_inj {d : Char} (hc : isOpening c = true) (hd : isOpening d = true)
    (h : closerOf c = closerOf d) : c = d := by
  simp only [isOpening, Bool.or_eq_true, beq_iff_eq] at hc hd
  rcases hc with (rfl | rfl) | rfl <;> rcases hd with (rfl | rfl) | rfl <;>
    first | rfl | exact absurd h (by decide)

/-- The bracket that closes an opening one is a closing one. -/
theorem isClosing_closerOf (c : Char) : isClosing (closerOf c) = true := by
  rw [closerOf]
  split
  · rfl
  · split
    · rfl
    · rfl

/-- A closing bracket is no opening one. -/
theorem isOpening_of_isClosing (h : isClosing c = true) : isOpening c = false := by
  simp only [isClosing, Bool.or_eq_true, beq_iff_eq] at h
  rcases h with (rfl | rfl) | rfl <;> rfl

/-- The bracket that closes one is another one. -/
theorem closerOf_ne (h : isOpening c = true) : closerOf c ≠ c := by
  intro heq
  have hclosing := isOpening_of_isClosing (isClosing_closerOf c)
  rw [heq, h] at hclosing
  cases hclosing

/-- A search for the bracket that closes one counts what the walk has still to close of that kind. -/
theorem matchingVerdict_of_nestingVerdict {opening : Char} (hopening : isOpening opening = true)
    (h : nestingVerdict ends pending c = .pass after) :
    matchingVerdict opening (closerOf opening) (pending.count (closerOf opening) + 1) c =
      .pass (after.count (closerOf opening) + 1) := by
  have hne := closerOf_ne hopening
  obtain ⟨-, ⟨hc, rfl⟩ | ⟨hc, -, rfl⟩ | ⟨hc, hclosing, rfl⟩⟩ := nestingVerdict_cases h
  · rw [matchingVerdict]
    by_cases heq : c = opening
    · subst heq
      simp
    · have hcloser : c ≠ closerOf opening := by
        rintro rfl
        rw [isOpening_of_isClosing (isClosing_closerOf opening)] at hc
        cases hc
      have hother : closerOf c ≠ closerOf opening := fun h => heq (closerOf_inj hc hopening h)
      simp [heq, hcloser, List.count_cons_of_ne hother]
  · have heq : c ≠ opening := by
      rintro rfl
      rw [hopening] at hc
      cases hc
    rw [matchingVerdict, if_neg heq]
    by_cases hcloser : c = closerOf opening
    · subst hcloser
      simp
    · simp [hcloser, List.count_cons_of_ne hcloser]
  · have heq : c ≠ opening := by
      rintro rfl
      rw [hopening] at hc
      cases hc
    have hcloser : c ≠ closerOf opening := by
      rintro rfl
      rw [isClosing_closerOf] at hclosing
      cases hclosing
    simp [matchingVerdict, heq, hcloser]

end Walk

/-- Where two searches pass in the same states, so does one that passes where both do. -/
theorem passAll_and {σ : Type} {verdict other both : σ → Char → Verdict σ}
    (hstep : ∀ state after second c, verdict state c = .pass after → other state c = .pass second →
      second = after ∧ both state c = .pass after)
    {state after second : σ} {t : Text} (h : passAll verdict state t = some after)
    (hother : passAll other state t = some second) : passAll both state t = some after := by
  induction t generalizing state with
  | nil => exact h
  | cons c t ih =>
    rw [passAll] at h hother ⊢
    cases hverdict : verdict state c with
    | pass next =>
      cases hsecond : other state c with
      | pass next' =>
        obtain ⟨rfl, hboth⟩ := hstep state next next' c hverdict hsecond
        rw [hverdict] at h
        rw [hsecond] at hother
        rw [hboth]
        exact ih h hother
      | stop => simp [hsecond] at hother
      | fail => simp [hsecond] at hother
    | stop => simp [hverdict] at h
    | fail => simp [hverdict] at h

section CodeChar

variable {c : Char} {t : Text}

/-- Whether a character is code wherever it stands outside literals. -/
def isCodeChar (c : Char) : Bool := !isQuote c && !isLineStart c

/-- Whether a character is code wherever it stands outside literals, no bracket and none of the
characters. -/
def isPlain (ends : Char → Bool) (c : Char) : Bool :=
  isCodeChar c && !(isOpening c || isClosing c) && !ends c

theorem isPlain_iff {ends : Char → Bool} :
    isPlain ends c = true ↔
      isCodeChar c = true ∧ (isOpening c || isClosing c) = false ∧ ends c = false := by
  rw [isPlain, Bool.and_eq_true, Bool.and_eq_true, Bool.not_eq_true', Bool.not_eq_true', and_assoc]

/-- The characters that are more than themselves in code. -/
def signs : Text := ['"', '\'', '/', '\\', '(', '[', '{', ')', ']', '}']

/-- A character without a meaning of its own is plain. -/
theorem isPlain_of_not_mem {ends : Char → Bool} (hc : c ∉ signs) (hends : ends c = false) :
    isPlain ends c = true := by
  simp only [signs, List.mem_cons, List.not_mem_nil, or_false, not_or] at hc
  rw [isPlain_iff]
  simp [isCodeChar, isQuote, isLineStart, isOpening, isClosing, hc, hends]

/-- A bracket is code by itself. -/
theorem isCodeChar_of_bracket (h : (isOpening c || isClosing c) = true) : isCodeChar c = true := by
  simp only [isOpening, isClosing, Bool.or_eq_true, beq_iff_eq] at h
  rcases h with ((rfl | rfl) | rfl) | ((rfl | rfl) | rfl) <;> rfl

/-- A character that is code by itself is read as such. -/
theorem step_of_isCodeChar (h : isCodeChar c = true) : Mode.code.step c t = (true, .code) := by
  simp only [isCodeChar, Bool.and_eq_true, Bool.not_eq_true'] at h
  simp [Mode.step, Mode.read, h.1, h.2]

/-- The code of a text that starts with a character that is code by itself. -/
theorem code_cons (h : isCodeChar c = true) : code (c :: t) = c :: t.code := by
  rw [code, Mode.codeOf_cons, step_of_isCodeChar h]
  rfl

/-- A text that starts with a character that is code by itself is closed if the rest is. -/
theorem isClosed_cons (h : isCodeChar c = true) : IsClosed (c :: t) ↔ t.IsClosed := by
  rw [IsClosed, Mode.endOf, step_of_isCodeChar h]
  rfl

/-- A text is apart from one that starts with a character that is code by itself. -/
theorem apart_cons {s : Text} (h : isCodeChar c = true) : Apart s (c :: t) := by
  simp only [isCodeChar, Bool.and_eq_true, Bool.not_eq_true'] at h
  apply apart_of_head
  intro d hd
  cases hd
  exact h.2

/-- A text that ends with a character that is code by itself is apart from every text. -/
theorem apart_concat {s : Text} (h : isCodeChar c = true) : Apart (s ++ [c]) t := by
  simp only [isCodeChar, Bool.and_eq_true, Bool.not_eq_true'] at h
  apply apart_of_last
  intro d hd
  rw [List.getLast?_concat] at hd
  cases hd
  exact h.2

end CodeChar

namespace Balanced

variable {ends inner : Char → Bool} {s t : Text} {c : Char}

/-- The empty text is balanced. -/
theorem nil : Balanced ends [] := ⟨rfl, rfl⟩

/-- A balanced text is so in front of fewer characters too. -/
theorem weaken (h : t.Balanced ends) (hends : ∀ c, inner c = true → ends c = true) :
    t.Balanced inner := by
  refine ⟨h.closed, ?_⟩
  refine passAll_map id ?_ h.nested
  intro pending after c hverdict
  obtain ⟨hstop, hcases⟩ := nestingVerdict_cases hverdict
  have hstop' : (pending.isEmpty && inner c) = false := by
    cases hinner : inner c with
    | false => simp
    | true =>
      rw [hends c hinner] at hstop
      rw [hstop]
  simp only [id, nestingVerdict, hstop', ← hverdict, hstop]

/-- A text that is balanced in front of some characters and in front of others is so in front of both. -/
theorem or (h : t.Balanced ends) (hinner : t.Balanced inner) :
    t.Balanced fun c => ends c || inner c := by
  refine ⟨h.closed, ?_⟩
  exact passAll_and (fun _ _ _ _ => nestingVerdict_or) h.nested hinner.nested

/-- Balanced texts that are apart are balanced together. -/
theorem append (hs : s.Balanced ends) (ht : t.Balanced ends) (h : Apart s t) :
    (s ++ t).Balanced ends := by
  refine ⟨hs.closed.append ht.closed h, ?_⟩
  rw [hs.closed.code_append h, passAll_append hs.nested]
  exact ht.nested

/-- A search outside all brackets for one of the characters passes a balanced text. -/
theorem passAll_topLevelVerdict (h : t.Balanced ends) :
    passAll (topLevelVerdict ends) 0 t.code = some 0 :=
  passAll_map List.length (fun _ _ _ => topLevelVerdict_of_nestingVerdict) h.nested

/-- A search outside all brackets finds what stands behind a balanced text. -/
theorem cutAtTopLevel? (h : s.Balanced ends) (hends : ends c = true) (hquote : isQuote c = false)
    (hline : isLineStart c = false) (rest : Text) :
    (s ++ c :: rest).cutAtTopLevel? ends = some ⟨s, c :: rest⟩ := by
  have hstop : topLevelVerdict ends 0 c = .stop := by
    rw [topLevelVerdict, hends]
    rfl
  exact cutInCode_stop h.closed hquote hline h.passAll_topLevelVerdict hstop rest

/-- A search outside all brackets finds nothing in a balanced text. -/
theorem cutAtTopLevel?_eq_none (h : t.Balanced ends) : t.cutAtTopLevel? ends = none :=
  cutInCode_eq_none h.closed h.passAll_topLevelVerdict

/-- Plain characters may stand in front of a balanced text. -/
theorem plain_append (hs : s.all (isPlain ends) = true) (ht : t.Balanced ends) :
    (s ++ t).Balanced ends := by
  induction s with
  | nil => exact ht
  | cons c s ih =>
    rw [List.all_cons, Bool.and_eq_true] at hs
    obtain ⟨hcode, hbracket, hends⟩ := isPlain_iff.1 hs.1
    rw [Bool.or_eq_false_iff] at hbracket
    have hrest := ih hs.2
    refine ⟨(isClosed_cons hcode).2 hrest.closed, ?_⟩
    rw [List.cons_append, code_cons hcode, passAll]
    simpa [nestingVerdict, hends, hbracket] using hrest.nested

/-- A text of plain characters is balanced. -/
theorem of_plain (hs : s.all (isPlain ends) = true) : s.Balanced ends := by
  have h := plain_append hs nil
  rw [List.append_nil] at h
  exact h

/-- Plain characters keep two balanced texts apart. -/
theorem glue (hs : s.Balanced ends) (ht : t.Balanced ends) (hglue : isPlain ends c = true)
    {more : Text} (hmore : more.all (isPlain ends) = true) :
    (s ++ (c :: more ++ t)).Balanced ends := by
  refine hs.append (plain_append ?_ ht) (apart_cons (isPlain_iff.1 hglue).1)
  rw [List.all_cons, hglue, hmore]
  rfl

section Bracket

variable {opening : Char}

/-- The code of a balanced text in brackets, from the opening one on. -/
theorem code_bracket (hopening : isOpening opening = true) (h : t.Balanced inner) :
    code (opening :: t ++ [closerOf opening]) = opening :: (t.code ++ [closerOf opening]) := by
  have hcloser := isCodeChar_of_bracket (c := closerOf opening) (by simp [isClosing_closerOf])
  rw [List.cons_append, code_cons (isCodeChar_of_bracket (by simp [hopening])),
    h.closed.code_append (apart_cons hcloser), code_cons hcloser]
  rfl

/-- A balanced text in brackets is balanced, whatever stands in the brackets. -/
theorem bracket (hopening : isOpening opening = true) (hends : ends opening = false)
    (h : t.Balanced inner) : Balanced ends (opening :: t ++ [closerOf opening]) := by
  have hcloser := isCodeChar_of_bracket (c := closerOf opening) (by simp [isClosing_closerOf])
  have hinside : passAll (nestingVerdict ends) [closerOf opening] t.code = some [closerOf opening] :=
    passAll_map (· ++ [closerOf opening]) (fun _ _ _ => nestingVerdict_inside (by simp)) h.nested
  constructor
  · rw [List.cons_append, isClosed_cons (isCodeChar_of_bracket (by simp [hopening]))]
    exact h.closed.append ((isClosed_cons hcloser).2 rfl) (apart_cons hcloser)
  · have hfirst : nestingVerdict ends [] opening = .pass [closerOf opening] := by
      simp [nestingVerdict, hends, hopening]
    have hlast : nestingVerdict ends [closerOf opening] (closerOf opening) = .pass [] := by
      simp [nestingVerdict, isClosing_closerOf, isOpening_of_isClosing]
    rw [code_bracket hopening h, passAll, hfirst]
    change passAll _ [closerOf opening] _ = _
    rw [passAll_append hinside, passAll, hlast]
    rfl

/-- The bracket that closes the one in front of a balanced text stands behind the text. -/
theorem cutAtMatching? (hopening : isOpening opening = true) (h : t.Balanced inner) (rest : Text) :
    Text.cutAtMatching? (opening :: t ++ closerOf opening :: rest) opening (closerOf opening) =
      some ⟨opening :: t, closerOf opening :: rest⟩ := by
  have hcode := isCodeChar_of_bracket (c := opening) (by simp [hopening])
  have hcloser := isCodeChar_of_bracket (c := closerOf opening) (by simp [isClosing_closerOf])
  have hne := closerOf_ne hopening
  have hpass : passAll (matchingVerdict opening (closerOf opening)) 0 (code (opening :: t)) = some 1 := by
    rw [code_cons hcode, passAll, matchingVerdict, if_pos rfl]
    exact passAll_map (fun pending : Text => pending.count (closerOf opening) + 1)
      (fun _ _ _ => matchingVerdict_of_nestingVerdict hopening) h.nested
  have hstop : matchingVerdict opening (closerOf opening) 1 (closerOf opening) = .stop := by
    simp [matchingVerdict, hne]
  simp only [isCodeChar, Bool.and_eq_true, Bool.not_eq_true'] at hcloser
  have hhead : (opening :: t ++ closerOf opening :: rest).head? = some opening := rfl
  rw [Text.cutAtMatching?, if_pos hhead]
  exact cutInCode_stop ((isClosed_cons hcode).2 h.closed) hcloser.1 hcloser.2 hpass hstop rest

end Bracket

end Balanced

end Text

end ClassFlattening
