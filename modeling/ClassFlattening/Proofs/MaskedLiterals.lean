import ClassFlattening.Proofs.QuotedTails
import ClassFlattening.Proofs.Remarks

/-!
# Masked literals

A literal is masked by writing every character in it that is no quote, no backslash and no newline as fillers of
the same size. Two texts that differ only in what their literals say are the same when they are masked. A search
of the code passes the fillers as it passed the literal, so in the masked text it finds the place it found; a plain
search does if the place is outside all literals.
-/

namespace ClassFlattening

open Text

/-- Whether a character could stand anywhere in a literal. -/
def isContent (c : Char) : Bool := !isQuote c && c != '\\' && c != '\n'

namespace Mode

/-- Whether the next character is in a literal. -/
def isLiteral : Mode → Bool
  | quoted _ | escaped _ => true
  | _ => false

/-- Whether the next character is masked. -/
def hides (mode : Mode) (c : Char) : Bool := mode.isLiteral && isContent c

/-- What a character is masked as. -/
def shown (mode : Mode) (c : Char) : Text := if mode.hides c then List.replicate c.utf8Size 'a' else [c]

/-- The text that is read from a mode on, with its literals masked. -/
def mask : Mode → Text → Text
  | _, [] => []
  | mode, c :: rest => mode.shown c ++ (mode.step c rest).2.mask rest

theorem isQuoting_code : code.IsQuoting := trivial

theorem isLiteral_code : code.isLiteral = false := rfl

section Steps

variable {mode : Mode} {c : Char} {rest : Text}

/-- Masked or not, a character has its size. -/
theorem size_shown (mode : Mode) (c : Char) : (mode.shown c).size = c.utf8Size := by
  have hfiller (k : Nat) : Text.size (List.replicate k 'a') = k := by
    induction k with
    | zero => rfl
    | succ k ih =>
      rw [List.replicate_succ, size_cons, ih]
      exact Nat.add_comm 1 k
  rw [shown]
  split
  · exact hfiller _
  · exact size_cons c []

/-- A masked text has its size. -/
theorem size_mask (mode : Mode) (t : Text) : (mode.mask t).size = t.size := by
  induction t generalizing mode with
  | nil => rfl
  | cons c t ih => rw [mask, size_append, size_shown, ih, size_cons]

/-- Outside literals nothing is masked. -/
theorem shown_of_not_isLiteral (h : mode.isLiteral = false) (c : Char) : mode.shown c = [c] := by
  rw [shown, hides, h]
  rfl

/-- A character that ends a literal, or could, is not masked. -/
theorem shown_of_not_isContent (h : isContent c = false) (mode : Mode) : mode.shown c = [c] := by
  rw [shown, hides, h, Bool.and_false]
  rfl

/-- What could stand anywhere in a literal leaves it open. -/
theorem step_quoted_of_isContent {quote : Char} (hquote : isQuote quote = true) (hc : isContent c = true)
    (rest : Text) : (quoted quote).step c rest = (false, .quoted quote) := by
  rw [isContent, Bool.and_eq_true, Bool.and_eq_true, Bool.not_eq_true', bne_iff_ne, bne_iff_ne] at hc
  obtain ⟨⟨hnot, hslash⟩, hline⟩ := hc
  have hne : c ≠ quote := by
    rintro rfl
    rw [hnot] at hquote
    cases hquote
  rw [step, read, if_neg hslash, if_neg hline, if_neg hne]

/-- In a literal, behind a backslash or not, content leaves it open again and again. -/
theorem step_of_isContent (hmode : mode.IsQuoting) (h : mode.isLiteral = true) :
    ∃ quote, ∀ c rest, isContent c = true →
      mode.step c rest = (false, .quoted quote) ∧ (quoted quote).step c rest = (false, .quoted quote) := by
  cases mode with
  | code => cases h
  | line => cases h
  | escaped quote => exact ⟨quote, fun c rest hc => ⟨rfl, step_quoted_of_isContent hmode hc rest⟩⟩
  | quoted quote =>
    exact ⟨quote, fun c rest hc => ⟨step_quoted_of_isContent hmode hc rest, step_quoted_of_isContent hmode hc rest⟩⟩

/-- How a character is read depends on the next character alone. -/
theorem step_congr {s t : Text} (h : s.head? = t.head?) (mode : Mode) (c : Char) : mode.step c s = mode.step c t := by
  have hdoubled : isDoubled c s = isDoubled c t := by rw [isDoubled, isDoubled, h]
  cases mode with
  | code => simp only [step, read, hdoubled]
  | _ => rfl

/-- In front of a literal the next character does not matter. -/
theorem step_of_isLiteral (h : (mode.step c rest).2.isLiteral = true) (t : Text) :
    mode.step c rest = mode.step c t := by
  cases mode with
  | quoted quote => rfl
  | escaped quote => rfl
  | line => rfl
  | code =>
    cases hquote : isQuote c with
    | true => simp only [step, read, hquote, if_true]
    | false =>
      rw [step, read, hquote] at h
      simp only [Bool.false_eq_true, if_false] at h
      split at h <;> cases h

/-- How a character is read does not depend on whether what follows is masked. -/
theorem step_mask (mode : Mode) (c : Char) (rest : Text) :
    mode.step c ((mode.step c rest).2.mask rest) = mode.step c rest := by
  cases hopen : (mode.step c rest).2.isLiteral with
  | true => exact (step_of_isLiteral hopen _).symm
  | false =>
    apply step_congr
    cases rest with
    | nil => rfl
    | cons d rest =>
      rw [mask, shown_of_not_isLiteral hopen]
      rfl

end Steps

section Append

variable {mode : Mode} {s t : Text}

/-- Two texts that are apart are masked one after the other. -/
theorem mask_append (h : Apart s t) (mode : Mode) : mode.mask (s ++ t) = mode.mask s ++ (mode.past s).mask t := by
  induction s generalizing mode with
  | nil => rfl
  | cons c s ih =>
    rw [List.cons_append, mask, mask, past, step_append mode h, ih h.tail, List.append_assoc]

/-- A masked text and the text agree up to a quote. -/
theorem agreeToQuote_mask (h : mode.isLiteral = false) (t : Text) : AgreeToQuote (mode.mask t) t := by
  induction t generalizing mode with
  | nil => exact .refl _
  | cons c t ih =>
    rw [mask, shown_of_not_isLiteral h]
    by_cases hopens : mode = .code ∧ isQuote c = true
    · obtain ⟨rfl, hquote⟩ := hopens
      exact .inr ⟨[], c, _, _, hquote, rfl, rfl⟩
    · have hnext : (mode.step c t).2.isLiteral = false := by
        cases mode with
        | quoted quote => cases h
        | escaped quote => cases h
        | line =>
          rw [step, read]
          split <;> rfl
        | code =>
          rw [step, read, if_neg fun hquote => hopens ⟨rfl, hquote⟩]
          split <;> rfl
      rcases ih hnext with heq | ⟨front, quote, x, y, hquote, hx, hy⟩
      · exact .inl (congrArg (c :: ·) heq)
      · exact .inr ⟨c :: front, quote, x, y, hquote, congrArg (c :: ·) hx, congrArg (c :: ·) hy⟩

end Append

end Mode

/-- A cut of a text that is read from a mode on, with its literals masked. -/
def Cut.mask (mode : Mode) (cut : Cut) : Cut := ⟨mode.mask cut.before, (mode.past cut.before).mask cut.after⟩

section Searches

variable {σ : Type} {verdict : σ → Char → Verdict σ} {mode : Mode} {after : σ} {t : Text} {cut : Cut} {c : Char}

/-- The second of two signs that could start a line that is no code is no code. -/
theorem step_step_of_isLineStart (hmode : mode.IsQuoting) (hline : isLineStart c = true) (rest : Text) :
    ((mode.step c (c :: rest)).2.step c rest).1 = false := by
  rw [isLineStart, Bool.or_eq_true, beq_iff_eq, beq_iff_eq] at hline
  cases mode with
  | code => rcases hline with rfl | rfl <;> rfl
  | line => rcases hline with rfl | rfl <;> rfl
  | escaped quote =>
    rw [Mode.IsQuoting, isQuote, Bool.or_eq_true, beq_iff_eq, beq_iff_eq] at hmode
    rcases hline with rfl | rfl <;> rcases hmode with rfl | rfl <;> rfl
  | quoted quote =>
    rw [Mode.IsQuoting, isQuote, Bool.or_eq_true, beq_iff_eq, beq_iff_eq] at hmode
    rcases hline with rfl | rfl <;> rcases hmode with rfl | rfl <;> rfl

/-- What a search of the code cuts off is apart from what it stops at. -/
theorem apart_of_cutInCode (hmode : mode.IsQuoting)
    (h : cutWhere (codeVerdict verdict) (mode, after) t = some cut) : Apart cut.before cut.after := by
  induction t generalizing mode after cut with
  | nil => cases h
  | cons c t ih =>
    rcases cutWhere_cases h with ⟨-, rfl⟩ | ⟨⟨mode', after'⟩, inner, hpass, hinner, rfl⟩
    · intro d hd
      cases hd
    · obtain rfl : (mode.step c t).2 = mode' := (codeVerdict_eq_pass_iff.1 hpass).1
      have hapart := ih (hmode.step c t) hinner
      cases hbefore : inner.before with
      | cons d before =>
        rw [hbefore] at hapart
        intro e he
        rw [List.getLast?_cons_cons] at he
        exact hapart e he
      | nil =>
        intro e he hline hhead
        obtain rfl : c = e := Option.some.inj he
        cases t with
        | nil => cases hinner
        | cons d rest =>
          rcases cutWhere_cases hinner with ⟨hstop, rfl⟩ | ⟨_, _, -, -, rfl⟩
          · obtain rfl : d = c := Option.some.inj hhead
            have hcode := (codeVerdict_eq_stop_iff.1 hstop).1
            rw [step_step_of_isLineStart hmode hline] at hcode
            cases hcode
          · cases hbefore

/-- What is shown of a masked character is passed as the character is. -/
theorem walk_shown (hmode : mode.IsQuoting) (h : mode.hides c = true) (rest : Text) :
    codeVerdict verdict (mode, after) c rest = .pass ((mode.step c rest).2, after) ∧
      walk verdict (mode, after) (mode.shown c) = some ((mode.step c rest).2, after) := by
  have hshown : mode.shown c = List.replicate c.utf8Size 'a' := if_pos h
  rw [Mode.hides, Bool.and_eq_true] at h
  obtain ⟨quote, hstep⟩ := Mode.step_of_isContent hmode h.1
  have hc := (hstep c rest h.2).1
  refine ⟨by rw [codeVerdict, hc]; rfl, ?_⟩
  have hfillers (k : Nat) :
      walk verdict (.quoted quote, after) (List.replicate k 'a') = some (.quoted quote, after) := by
    induction k with
    | zero => rfl
    | succ k ih =>
      rw [List.replicate_succ, walk, codeVerdict, (hstep 'a' _ rfl).2]
      exact ih
  obtain ⟨k, hk⟩ := Nat.exists_eq_succ_of_ne_zero (Nat.ne_of_gt c.utf8Size_pos)
  rw [hshown, hk, List.replicate_succ, walk, codeVerdict, (hstep 'a' _ rfl).1, hc]
  exact hfillers k

/-- What is shown of a character does not start a line that is no code, if the character is masked. -/
theorem apart_shown (h : mode.hides c = true) (t : Text) : Apart (mode.shown c) t := by
  apply apart_of_last
  intro d hd
  rw [Mode.shown, if_pos h] at hd
  obtain rfl : d = 'a' := List.eq_of_mem_replicate (List.mem_of_mem_getLast? hd)
  rfl

/-- A search of the code finds in the masked text what it finds in the text. -/
theorem cutWhere_mask (hmode : mode.IsQuoting) :
    cutWhere (codeVerdict verdict) (mode, after) (mode.mask t) =
      (cutWhere (codeVerdict verdict) (mode, after) t).map (Cut.mask mode) := by
  induction t generalizing mode after with
  | nil => rfl
  | cons c t ih =>
    have hnext := hmode.step c t
    -- Behind the first character the search goes on in the same way, and cuts the same texts off.
    have hcut {after' : σ} (hpass : codeVerdict verdict (mode, after) c t = .pass ((mode.step c t).2, after')) :
        ((cutWhere (codeVerdict verdict) ((mode.step c t).2, after') t).map (Cut.mask (mode.step c t).2)).map
            (fun cut => ⟨mode.shown c ++ cut.before, cut.after⟩) =
          (cutWhere (codeVerdict verdict) (mode, after) (c :: t)).map (Cut.mask mode) := by
      have hsearch : cutWhere (codeVerdict verdict) (mode, after) (c :: t) =
          (cutWhere (codeVerdict verdict) ((mode.step c t).2, after') t).map
            fun cut => ⟨c :: cut.before, cut.after⟩ := by
        rw [cutWhere_cons, hpass]
      cases hinner : cutWhere (codeVerdict verdict) ((mode.step c t).2, after') t with
      | none =>
        rw [hsearch, hinner]
        rfl
      | some inner =>
        rw [hinner, Option.map_some] at hsearch
        have hstep : mode.step c inner.before = mode.step c t := by
          rw [← whole_of_cutWhere _ hinner, Cut.whole, step_append mode (apart_of_cutInCode hmode hsearch)]
        rw [hsearch]
        simp only [Option.map_some, Cut.mask, Mode.mask, Mode.past, hstep]
    cases hhides : mode.hides c with
    | true =>
      obtain ⟨hpass, hwalk⟩ := walk_shown hmode hhides t
      rw [← hcut hpass, Mode.mask, cutWhere_append_of_walk (apart_shown hhides _) hwalk, ih hnext]
    | false =>
      have hshown : mode.shown c = [c] := by rw [Mode.shown, hhides]; rfl
      have hverdict : codeVerdict verdict (mode, after) c ((mode.step c t).2.mask t) =
          codeVerdict verdict (mode, after) c t := by
        rw [codeVerdict, codeVerdict, Mode.step_mask]
      rw [Mode.mask, hshown, List.singleton_append, cutWhere_cons, hverdict]
      cases hc : codeVerdict verdict (mode, after) c t with
      | stop =>
        rw [cutWhere_cons, hc]
        simp only [Option.map_some, Cut.mask, Mode.mask, Mode.past, hshown, List.singleton_append]
      | fail =>
        rw [cutWhere_cons, hc]
        rfl
      | pass next =>
        obtain ⟨mode', after'⟩ := next
        obtain rfl : (mode.step c t).2 = mode' := (codeVerdict_eq_pass_iff.1 hc).1
        rw [← hcut hc, hshown]
        simp only [ih hnext]
        rfl

/-- Behind a character of the code there is code. -/
theorem step_of_isCode (h : (mode.step c t).1 = true) : (mode.step c t).2 = .code := by
  cases mode with
  | code =>
    rw [Mode.step, Mode.read] at h ⊢
    split at h
    · cases h
    · next hquote =>
      split at h
      · cases h
      · next hline => rw [if_neg hquote, if_neg hline]
  | quoted quote =>
    rw [Mode.step, Mode.read] at h ⊢
    split at h
    · cases h
    · split at h
      · next hslash hnewline => rw [if_neg hslash, if_pos hnewline]
      · split at h <;> cases h
  | escaped quote => cases h
  | line =>
    rw [Mode.step, Mode.read] at h ⊢
    split at h
    · next hnewline => rw [if_pos hnewline]
    · cases h

/-- A character of the code is not masked. -/
theorem hides_of_isCode (hmode : mode.IsQuoting) (h : (mode.step c t).1 = true) : mode.hides c = false := by
  rw [Bool.eq_false_iff]
  intro hhides
  rw [Mode.hides, Bool.and_eq_true] at hhides
  obtain ⟨quote, hstep⟩ := Mode.step_of_isContent hmode hhides.1
  rw [(hstep c t hhides.2).1] at h
  cases h

/-- The modes behind quotes are the only literals behind a text, if they are in front of it. -/
theorem isQuoting_past (hmode : mode.IsQuoting) (t : Text) : (mode.past t).IsQuoting := by
  induction t generalizing mode with
  | nil => exact hmode
  | cons c t ih => exact ih (hmode.step c t)

/-- What a search of the code stops at, and that the code goes on behind it. -/
theorem exists_of_cutWhere (hmode : mode.IsQuoting)
    (h : cutWhere (codeVerdict verdict) (mode, after) t = some cut) :
    ∃ c, cut.after = c :: cut.behind ∧ (mode.past cut.before).step c cut.behind = (true, .code) := by
  obtain ⟨state, c, rest, hwalk, hafter, hstop⟩ := exists_walk_of_cutWhere h (apart_of_cutInCode hmode h)
  have hcode := (codeVerdict_eq_stop_iff.1 hstop).1
  have hbehind : cut.behind = rest := by rw [Cut.behind, hafter, List.tail_cons]
  refine ⟨c, by rw [hafter, hbehind], ?_⟩
  rw [hbehind, ← fst_of_walk hwalk]
  exact Prod.ext hcode (step_of_isCode hcode)

/-- What a search of the code leaves of the masked text behind what it stops at. -/
theorem behind_mask (hmode : mode.IsQuoting) (h : cutWhere (codeVerdict verdict) (mode, after) t = some cut) :
    (cut.mask mode).behind = Mode.code.mask cut.behind := by
  obtain ⟨c, hafter, hstep⟩ := exists_of_cutWhere hmode h
  have hshown : (mode.past cut.before).shown c = [c] := by
    rw [Mode.shown, hides_of_isCode (isQuoting_past hmode cut.before) (congrArg Prod.fst hstep)]
    rfl
  rw [Cut.mask, Cut.behind, hafter, Mode.mask, hshown, hstep]
  rfl

end Searches

section Plain

variable {mode : Mode} {t : Text} {cut : Cut} {c : Char}

/-- What is in a masked text is a filler or in the text. -/
theorem mem_mask (h : c ∈ mode.mask t) : c = 'a' ∨ c ∈ t := by
  induction t generalizing mode with
  | nil => cases h
  | cons d t ih =>
    rw [Mode.mask, List.mem_append] at h
    rcases h with h | h
    · rw [Mode.shown] at h
      split at h
      · exact .inl (List.eq_of_mem_replicate h)
      · exact .inr (List.mem_singleton.1 h ▸ List.mem_cons_self)
    · exact (ih h).imp_right (List.mem_cons_of_mem d)

/-- Two parts of a text at a sign that is not masked. -/
theorem mask_append_cons (hline : isLineStart c = false) {s : Text} (hshown : (mode.past s).shown c = [c]) (t : Text) :
    mode.mask (s ++ c :: t) = mode.mask s ++ c :: ((mode.past s).step c t).2.mask t := by
  rw [Mode.mask_append (apart_of_head fun d hd => by cases hd; exact hline), Mode.mask, hshown]
  rfl

/-- A sign that is not in a text is not in the masked text. -/
theorem cutAtFirst?_mask_of_none (hc : c ≠ 'a') (h : t.cutAtFirst? (· == c) = none) (mode : Mode) :
    (mode.mask t).cutAtFirst? (· == c) = none := by
  rw [← Option.not_isSome_iff_eq_none, isSome_cutAtFirst?, List.any_eq_true]
  rintro ⟨d, hd, hdc⟩
  obtain rfl : d = c := eq_of_beq hdc
  have hmem := (mem_mask hd).resolve_left hc
  have hnone := forall_of_cutAtFirst?_eq_none h d hmem
  rw [hdc] at hnone
  cases hnone

/-- The first such sign of a text is the first one of the masked text, if it is not masked. -/
theorem cutAtFirst?_mask (hc : c ≠ 'a') (hline : isLineStart c = false) (h : t.cutAtFirst? (· == c) = some cut)
    (hshown : (mode.past cut.before).shown c = [c]) :
    (mode.mask t).cutAtFirst? (· == c) = some (cut.mask mode) := by
  obtain ⟨hwhole, hafter⟩ := eq_of_cutAtFirst? h
  have hfirst : ∀ d ∈ mode.mask cut.before, (d == c) = false := by
    intro d hd
    rcases mem_mask hd with rfl | hmem
    · exact beq_eq_false_iff_ne.2 (Ne.symm hc)
    · exact forall_of_cutAtFirst? h d hmem
  rw [hwhole, mask_append_cons hline hshown, cutAtFirst?_self hfirst (beq_self_eq_true c), Cut.mask, hafter, Mode.mask,
    hshown]
  rfl

/-- A line ends in the masked text where it ends in the text. -/
theorem cutLine_mask (mode : Mode) (t : Text) :
    (mode.mask t).cutLine.after = (mode.past t.cutLine.before).mask t.cutLine.after := by
  cases hcut : t.cutAtFirst? (· == '\n') with
  | none =>
    rw [cutLine, cutAtFirst?_mask_of_none (by decide) hcut, cutLine, hcut]
    rfl
  | some cut =>
    have hshown (mode : Mode) : mode.shown '\n' = ['\n'] := Mode.shown_of_not_isContent rfl mode
    have hafter := (eq_of_cutAtFirst? hcut).2
    have hthrough : mode.past cut.through = ((mode.past cut.before).step '\n' cut.behind).2 := by
      have hhead : Apart ['\n'] cut.behind := apart_of_last fun d hd => by cases hd; rfl
      rw [Cut.through, hafter, past_append (apart_of_head fun d hd => by cases hd; rfl)]
      exact congrArg Prod.snd (step_append (mode.past cut.before) hhead).symm
    rw [cutLine, cutAtFirst?_mask (by decide) rfl hcut (hshown _), cutLine, hcut]
    dsimp only
    rw [hthrough, Cut.mask, Cut.behind, hafter, Mode.mask, hshown]
    rfl

/-- The first such sign of the first line is found in the masked text, if it is in no literal. -/
theorem cutOnLine?_mask (hc : c ≠ 'a') (hline : isLineStart c = false) (hnewline : c ≠ '\n')
    (h : ∀ cut ∈ t.cutOnLine? c, (mode.past cut.before).isLiteral = false) :
    (mode.mask t).cutOnLine? c = (t.cutOnLine? c).map (Cut.mask mode) := by
  cases hcut : t.cutOnLine? c with
  | some cut =>
    have hshown := Mode.shown_of_not_isLiteral (h cut hcut) c
    obtain ⟨hwhole, hafter, hfront⟩ := cutOnLine?_eq_some_iff.1 hcut
    have hfirst := cutAtFirst?_self (p := (· == c)) (t := cut.behind)
      (fun d hd => beq_eq_false_iff_ne.2 (hfront d hd).1) (beq_self_eq_true c)
    rw [← hwhole, ← hafter] at hfirst
    rw [cutOnLine?_of_cutAtFirst? (cutAtFirst?_mask hc hline hfirst hshown), if_neg, Option.map_some]
    intro hmem
    rcases mem_mask hmem with heq | hmem
    · cases heq
    · exact (hfront _ hmem).2 rfl
  | none =>
    rw [Option.map_none]
    cases hfirst : t.cutAtFirst? (· == c) with
    | none => exact cutOnLine?_of_cutAtFirst?_eq_none (cutAtFirst?_mask_of_none hc hfirst mode)
    | some cut =>
      obtain ⟨hwhole, -⟩ := eq_of_cutAtFirst? hfirst
      -- the line ends in front of the sign, and in the masked text too
      have hmem : '\n' ∈ cut.before := by
        by_contra hnot
        rw [cutOnLine?_of_cutAtFirst? hfirst, if_neg hnot] at hcut
        cases hcut
      obtain ⟨front, back, hbefore⟩ := List.append_of_mem hmem
      have hpassed : ∀ d ∈ mode.mask front ++ ['\n'], (d == c) = false := by
        intro d hd
        rw [beq_eq_false_iff_ne]
        rcases List.mem_append.1 hd with hd | hd
        · rcases mem_mask hd with rfl | hd
          · exact Ne.symm hc
          · exact beq_eq_false_iff_ne.1 (forall_of_cutAtFirst? hfirst d (hbefore ▸ List.mem_append_left _ hd))
        · rw [List.mem_singleton.1 hd]
          exact Ne.symm hnewline
      rw [hwhole, hbefore, List.append_assoc, List.cons_append,
        mask_append_cons rfl (Mode.shown_of_not_isContent rfl _), ← List.singleton_append, ← List.append_assoc]
      cases hmasked : cutAtFirst? (· == c) (mode.mask front ++ ['\n'] ++ ((mode.past front).step '\n'
          (back ++ c :: cut.behind)).2.mask (back ++ c :: cut.behind)) with
      | none => exact cutOnLine?_of_cutAtFirst?_eq_none hmasked
      | some found =>
        rw [cutOnLine?_of_cutAtFirst? hmasked, if_pos]
        rw [cutAtFirst?_append hpassed, Option.map_eq_some_iff] at hmasked
        obtain ⟨inner, -, rfl⟩ := hmasked
        simp

end Plain

section LastWord

variable {mode : Mode} {s t : Text}

/-- An identifier could stand anywhere in a literal. -/
theorem isContent_of_isIdentChar {c : Char} (h : isIdentChar c = true) : isContent c = true := by
  have hsigns : ∀ d ∈ ['"', '\'', '\\', '\n'], isIdentChar d = false := forall_of_all (by decide)
  have hne (d : Char) (hd : d ∈ ['"', '\'', '\\', '\n']) : c ≠ d := by
    rintro rfl
    rw [hsigns c hd] at h
    cases h
  simp [isContent, isQuote, hne]

/-- Content leaves a literal open. -/
theorem isLiteral_past (hmode : mode.IsQuoting) (h : mode.isLiteral = true) (ht : ∀ c ∈ t, isContent c = true) :
    (mode.past t).isLiteral = true := by
  induction t generalizing mode with
  | nil => exact h
  | cons c t ih =>
    obtain ⟨quote, hstep⟩ := Mode.step_of_isContent hmode h
    have hc := (hstep c t (ht c List.mem_cons_self)).1
    refine ih (hmode.step c t) ?_ fun d hd => ht d (List.mem_cons_of_mem c hd)
    rw [hc]
    rfl

/-- Where no literal is open and none is opened nothing is masked. -/
theorem mask_eq_self (h : mode.isLiteral = false) (ht : ∀ c ∈ t, isQuote c = false) : mode.mask t = t := by
  rcases Mode.agreeToQuote_mask h t with heq | ⟨front, quote, x, y, hquote, -, rfl⟩
  · exact heq
  · rw [ht quote (by simp)] at hquote
    cases hquote

/-- Plain code is not masked, nor does it change what is masked behind it. -/
theorem mask_append_of_isCodeChar (h : ∀ c ∈ s, isCodeChar c = true) (t : Text) :
    Mode.code.mask (s ++ t) = s ++ Mode.code.mask t := by
  have hends := endsInCode_of_all h
  have hquotes : ∀ c ∈ s, isQuote c = false := by
    intro c hc
    have hcode := h c hc
    rw [isCodeChar, Bool.and_eq_true, Bool.not_eq_true'] at hcode
    exact hcode.1
  rw [Mode.mask_append (hends.apart t), hends.1, mask_eq_self Mode.isLiteral_code hquotes]

/-- A text behind which no literal is open ends as it does masked. -/
theorem getLast?_mask (hmode : mode.IsQuoting) (h : (mode.past t).isLiteral = false) :
    (mode.mask t).getLast? = t.getLast? := by
  induction t generalizing mode with
  | nil => rfl
  | cons c t ih =>
    have hrest := ih (hmode.step c t) h
    rw [Mode.mask]
    cases t with
    | cons d t =>
      rw [List.getLast?_append, hrest, List.getLast?_cons_cons, List.getLast?_eq_some_getLast (List.cons_ne_nil d t)]
      rfl
    | nil =>
      have hc : mode.hides c = false := by
        rw [Bool.eq_false_iff]
        intro hhides
        rw [Mode.hides, Bool.and_eq_true] at hhides
        have hopen := isLiteral_past (t := [c]) hmode hhides.1 (by simp [hhides.2])
        rw [h] at hopen
        cases hopen
      rw [Mode.shown, hc]
      rfl

/-- A text is a text that ends in no word and the word that it ends in. -/
theorem exists_lastWord (t : Text) : ∃ front word : Text, t = front ++ word ∧ (∀ c ∈ word, isIdentChar c = true) ∧
    ∀ c ∈ front.getLast?, isIdentChar c = false := by
  refine ⟨(t.reverse.dropWhile isIdentChar).reverse, (t.reverse.takeWhile isIdentChar).reverse, ?_, ?_, ?_⟩
  · rw [← List.reverse_append, List.takeWhile_append_dropWhile, List.reverse_reverse]
  · intro c hc
    exact List.mem_takeWhile_imp (List.mem_reverse.1 hc)
  · intro c hc
    rw [List.getLast?_reverse] at hc
    have hhead := List.head?_dropWhile_not isIdentChar t.reverse
    rw [hc] at hhead
    simpa using hhead

/-- The last word of a text behind which no literal is open is not masked. -/
theorem leadingWord_reverse_mask (hmode : mode.IsQuoting) (h : (mode.past t).isLiteral = false) :
    leadingWord (mode.mask t).reverse = leadingWord t.reverse := by
  obtain ⟨front, word, rfl, hword, hfront⟩ := exists_lastWord t
  have hlast {s : Text} (hs : ∀ c ∈ s.getLast?, isIdentChar c = false) :
      leadingWord (s ++ word).reverse = word.reverse := by
    have hhead : ∀ c ∈ s.reverse.head?, isIdentChar c = false := by rwa [List.head?_reverse]
    rw [List.reverse_append, leadingWord, List.takeWhile_append_of_pos fun c hc => hword c (List.mem_reverse.1 hc)]
    cases hs : s.reverse with
    | nil => simp
    | cons c more =>
      rw [hs] at hhead
      rw [List.takeWhile_cons_of_neg (by simp [hhead c rfl]), List.append_nil]
  have hapart : Apart front word := by
    apply apart_of_head
    intro c hc
    have hplain : isPlain never c = true := isPlain_of_isIdentChar (hword c (List.mem_of_mem_head? hc)) rfl
    have hcode := (isPlain_iff.1 hplain).1
    rw [isCodeChar, Bool.and_eq_true, Bool.not_eq_true', Bool.not_eq_true'] at hcode
    exact hcode.2
  have hclosed : (mode.past front).isLiteral = false := by
    rw [past_append hapart] at h
    rw [Bool.eq_false_iff] at h ⊢
    exact fun hopen => h (isLiteral_past (isQuoting_past hmode front) hopen fun c hc =>
      isContent_of_isIdentChar (hword c hc))
  have hquotes : ∀ c ∈ word, isQuote c = false := by
    intro c hc
    have hcontent := isContent_of_isIdentChar (hword c hc)
    rw [isContent, Bool.and_eq_true, Bool.and_eq_true, Bool.not_eq_true'] at hcontent
    exact hcontent.1.1
  rw [Mode.mask_append hapart, mask_eq_self hclosed hquotes, hlast hfront, hlast]
  rwa [getLast?_mask hmode hclosed]

/-- A text that ends in no open literal, blanks apart, ends with the same word when it is masked. -/
theorem endsWithWord_mask (hmode : mode.IsQuoting) (h : (mode.past t.trimEnd).isLiteral = false) (word : Text) :
    endsWithWord (mode.mask t).reverse word = endsWithWord t.reverse word := by
  obtain ⟨back, hback, ht⟩ : ∃ back, allBlank back = true ∧ t = t.trimEnd ++ back := by
    refine ⟨(t.reverse.takeWhile isBlank).reverse, ?_, ?_⟩
    · rw [allBlank, List.all_reverse]
      exact List.all_takeWhile
    · rw [trimEnd, ← List.reverse_append, List.takeWhile_append_dropWhile, List.reverse_reverse]
  have hquotes : ∀ c ∈ back, isQuote c = false := by
    intro c hc
    rw [Bool.eq_false_iff]
    intro hquote
    have hblank := List.all_eq_true.1 hback c hc
    rw [(sign_of_isQuote hquote).2.1] at hblank
    cases hblank
  have hend : trimStart t.reverse = t.trimEnd.reverse := by rw [trimEnd, List.reverse_reverse, trimStart]
  have hmasked : trimStart (mode.mask t).reverse = (mode.mask t.trimEnd).reverse := by
    have hparts : mode.mask t = mode.mask t.trimEnd ++ back := by
      conv_lhs => rw [ht]
      rw [Mode.mask_append (apart_of_allBlank_right hback), mask_eq_self h hquotes]
    have hback' : allBlank back.reverse = true := by rwa [allBlank, List.all_reverse]
    have hlast := getLast?_mask hmode h
    rw [← List.head?_reverse, ← List.head?_reverse (l := t.trimEnd)] at hlast
    rw [hparts, List.reverse_append, trimStart_append hback']
    cases hreverse : (mode.mask t.trimEnd).reverse with
    | nil => rfl
    | cons c more =>
      rw [hreverse] at hlast
      obtain ⟨more', hmore⟩ := List.head?_eq_some_iff.1 hlast.symm
      have hblank := not_isBlank_of_trimStart_eq_cons (hend.trans hmore)
      exact List.dropWhile_cons_of_neg (by simp [hblank])
  rw [endsWithWord, endsWithWord, hmasked, hend, leadingWord_reverse_mask hmode h]

end LastWord

end ClassFlattening
