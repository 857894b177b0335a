import ClassFlattening.Proofs.ByOffset.CodeSearch

/-!
# Brackets by their offsets

Matching brackets, taking a list apart at its separators and finding the body of a function are loops
around the search of the code. The depth of a search for the matching bracket never goes below zero: the
search starts at an opening bracket, and it ends where the depth comes back to zero.
-/

namespace ClassFlattening

namespace Text

/-- The text behind a cut outside all brackets starts with a target. -/
theorem exists_of_cutAtTopLevel? {t : Text} {p : Char → Bool} {cut : Cut}
    (h : t.cutAtTopLevel? p = some cut) : ∃ c rest, cut.after = c :: rest ∧ p c = true := by
  obtain ⟨depth, c, rest, hafter, hstop⟩ := exists_stop_of_cutInCode h
  refine ⟨c, rest, hafter, ?_⟩
  rw [topLevelVerdict] at hstop
  split at hstop
  · next htarget => exact (Bool.and_eq_true_iff.1 htarget).2
  · split at hstop
    · cases hstop
    · split at hstop
      · split at hstop <;> cases hstop
      · cases hstop

/-- What the search for a closing bracket does at a character: it counts the brackets of the kind, stops where
its depth comes to zero and fails only where it is zero already. -/
theorem matchingVerdict_spec (opening closing : Char) (depth : Nat) (c : Char) :
    match matchingVerdict opening closing depth c with
    | .pass after =>
      (c = opening ∧ after = depth + 1) ∨ (c ≠ opening ∧ c = closing ∧ 0 < after ∧ depth = after + 1) ∨
        (c ≠ opening ∧ c ≠ closing ∧ after = depth)
    | .stop => c ≠ opening ∧ c = closing ∧ depth = 1
    | .fail => depth = 0 := by
  rw [matchingVerdict]
  by_cases hopening : c = opening
  · rw [if_pos hopening]
    exact Or.inl ⟨hopening, rfl⟩
  · rw [if_neg hopening]
    by_cases hclosing : c = closing
    · rw [if_pos hclosing]
      by_cases hzero : depth = 0
      · rw [if_pos hzero]
        exact hzero
      · rw [if_neg hzero]
        by_cases hone : depth = 1
        · rw [if_pos hone]
          exact ⟨hopening, hclosing, hone⟩
        · rw [if_neg hone]
          exact Or.inr (Or.inl ⟨hopening, hclosing, by omega, by omega⟩)
    · rw [if_neg hclosing]
      exact Or.inr (Or.inr ⟨hopening, hclosing, rfl⟩)

/-- Whether all characters are of one byte. -/
def allNarrow (targets : List Char) : Bool := targets.all fun c => c.utf8Size == 1

theorem utf8Size_of_allNarrow {targets : List Char} (h : allNarrow targets = true) {c : Char}
    (hc : c ∈ targets) : c.utf8Size = 1 :=
  beq_iff_eq.1 (List.all_eq_true.1 h c hc)

end Text

namespace ByOffset

open Text

/-- Whether a byte is one of the characters. -/
def isOneOf (targets : List Char) (b : UInt8) : Bool := targets.any fun c => b == c.toUInt8

/-- The decision of a search for the closing bracket. -/
def matchingStep (opening closing : Char) (depth : Nat) (b : UInt8) : Steps (Verdict Nat) :=
  if b == opening.toUInt8 then return .pass (depth + 1)
  else if b == closing.toUInt8 then do
    let depth ← minus depth 1
    return if depth = 0 then .stop else .pass depth
  else return .pass depth

/-- The offset of the bracket that closes the one at an offset. -/
def findMatching (t : Text) (start : Nat) (opening closing : Char) : Steps (Option Nat) :=
  if t.bytes[start]? == some opening.toUInt8 then
    Bytes.searchCode (matchingStep opening closing) t.bytes 0 start
  else return none

/-- The decision of a search outside all brackets. -/
def topLevelStep (targets : List Char) (depth : Nat) (b : UInt8) : Steps (Verdict Nat) :=
  if depth = 0 && isOneOf targets b then return .stop
  else if isOneOf ['(', '[', '{'] b then return .pass (depth + 1)
  else if isOneOf [')', ']', '}'] b then
    if depth = 0 then return .fail else return .pass (← minus depth 1)
  else return .pass depth

/-- The offset of the first target outside all brackets, from an offset on. -/
def findTopLevel (t : Text) (start : Nat) (targets : List Char) : Steps (Option Nat) :=
  Bytes.searchCode (topLevelStep targets) t.bytes 0 start

/-- The pieces between the separators outside all brackets, from an offset on, trimmed. -/
def Source.piecesFrom (t : Source) (separator : Char) (start : Nat) : Steps (List Text) := do
  match ← findTopLevel t start [separator] with
  | some stop =>
    let piece ← slice t start stop
    return piece.trim :: (← t |>.piecesFrom separator (stop + 1))
  | none => return [(← sliceFrom t start).trim]
partial_fixpoint

/-- The pieces between the separators outside all brackets, without the blank ones. -/
def splitTopLevel (t : Text) (separator : Char) : Steps (List Text) := do
  let pieces ← Source.piecesFrom t separator 0
  return pieces.filter fun piece => !piece.isEmpty

/-- The offset of the brace that opens the body of a function, from an offset on. -/
def Source.findBodyOpen (t : Source) (start : Nat) : Steps (Option Nat) := do
  match ← findTopLevel t start ['{'] with
  | none => return none
  | some opened =>
    let front ← sliceTo t opened
    if endsWithWord front.reverse "error".toList then
      match ← findMatching t opened '{' '}' with
      | none => return none
      | some closed => t |>.findBodyOpen (closed + 1)
    else return some opened
partial_fixpoint

section Targets

variable {targets : List Char}

theorem isOneOf_of_narrow (htargets : allNarrow targets = true) {c : Char} (hc : c.utf8Size = 1) :
    isOneOf targets c.toUInt8 = targets.contains c := by
  rw [isOneOf, List.contains_eq_any_beq, Bool.eq_iff_iff, List.any_eq_true, List.any_eq_true]
  have hbeq := fun d hd => toUInt8_beq hc (utf8Size_of_allNarrow htargets (c := d) hd)
  constructor
  · rintro ⟨d, hd, heq⟩
    exact ⟨d, hd, by rwa [← hbeq d hd]⟩
  · rintro ⟨d, hd, heq⟩
    exact ⟨d, hd, by rwa [hbeq d hd]⟩

theorem isOneOf_of_le (htargets : allNarrow targets = true) {b : UInt8} (hb : 128 ≤ b.toNat) :
    isOneOf targets b = false := by
  rw [isOneOf, List.any_eq_false]
  intro d hd
  rw [beq_toUInt8_of_le hb (utf8Size_of_allNarrow htargets hd)]
  exact Bool.false_ne_true

theorem contains_of_wide (htargets : allNarrow targets = true) {c : Char} (hc : c.utf8Size ≠ 1) :
    targets.contains c = false := by
  rw [Bool.eq_false_iff, Ne, List.contains_iff_mem]
  exact fun hmem => hc (utf8Size_of_allNarrow htargets hmem)

end Targets

theorem isOpening_eq (c : Char) : isOpening c = ['(', '[', '{'].contains c := by
  rw [isOpening, List.contains_cons, List.contains_cons, List.contains_cons, List.contains_nil,
    Bool.or_false, Bool.or_assoc]

theorem isClosing_eq (c : Char) : isClosing c = [')', ']', '}'].contains c := by
  rw [isClosing, List.contains_cons, List.contains_cons, List.contains_cons, List.contains_nil,
    Bool.or_false, Bool.or_assoc]

section Search

variable {whole t : Text} {opening closing : Char} {targets : List Char} {p : Char → Bool}

/-- Behind the first bracket the depth is not zero while the search goes on, so that it can be counted
down. -/
theorem agrees_matching (hopening : opening.utf8Size = 1) (hclosing : closing.utf8Size = 1) :
    Agrees (0 < ·) (matchingStep opening closing) (matchingVerdict opening closing) where
  narrow := by
    intro depth c hdepth hc
    rw [matchingStep, matchingVerdict, toUInt8_beq hc hopening, toUInt8_beq hc hclosing]
    by_cases hopen : c = opening
    · rw [if_pos hopen, if_pos (beq_iff_eq.2 hopen)]
    · rw [if_neg hopen, if_neg (by rwa [beq_iff_eq])]
      by_cases hclose : c = closing
      · rw [if_pos hclose, if_pos (beq_iff_eq.2 hclose), minus_of_le hdepth, pure_bind,
          if_neg (Nat.ne_of_gt hdepth)]
        congr 1
        by_cases hone : depth = 1
        · rw [if_pos hone, if_pos (by omega)]
        · rw [if_neg hone, if_neg (by omega)]
      · rw [if_neg hclose, if_neg (by rwa [beq_iff_eq])]
  byte := by
    intro depth b _ hb
    rw [matchingStep, beq_toUInt8_of_le hb hopening, beq_toUInt8_of_le hb hclosing]
    rfl
  wide := by
    intro depth c _ hc
    have hne := fun {d : Char} (hd : d.utf8Size = 1) => beq_eq_false_iff_ne.1 (beq_of_utf8Size_ne hc hd)
    rw [matchingVerdict, if_neg (hne hopening), if_neg (hne hclosing)]
  next := by
    intro depth after c hdepth hpass
    have hspec := matchingVerdict_spec opening closing depth c
    rw [hpass] at hspec
    rcases hspec with h | h | h <;> omega

/-- The search finds the offset of the cut in front of the closing bracket. -/
theorem findMatching_eq (hopens : isOpening opening = true) (hopening : opening.utf8Size = 1)
    (hclosing : closing.utf8Size = 1) (h : t <:+ whole) :
    findMatching whole (whole.offsetOf t) opening closing =
      pure ((t.cutAtMatching? opening closing).map fun cut => whole.offsetOf cut.after) := by
  rw [findMatching, beq_bytes_getElem? h hopening, isDoubled, cutAtMatching?]
  by_cases hhead : t.head? = some opening
  · rw [if_pos hhead, if_pos (beq_iff_eq.2 hhead)]
    cases t with
    | nil => cases hhead
    | cons c rest =>
      cases hhead
      have hcode : Mode.code.step opening rest = (true, .code) := by
        simp only [isOpening, Bool.or_eq_true, beq_iff_eq] at hopens
        rcases hopens with (rfl | rfl) | rfl <;> rfl
      have hfirst : matchingStep opening closing 0 opening.toUInt8 = pure (.pass 1) := by
        rw [matchingStep, beq_self_eq_true, if_pos rfl]
      have hverdict : matchingVerdict opening closing 0 opening = .pass 1 := by
        rw [matchingVerdict, if_pos rfl]
      rw [searchCode_pass h hopening hcode hfirst, searchCode_eq (agrees_matching hopening hclosing)
        Nat.one_pos ((List.suffix_cons _ _).trans h), map_offsetOf_cutInCode,
        map_offsetOf_cutInCode, afterInCode, hcode, hverdict]
      rfl
  · rw [if_neg hhead, if_neg (by rwa [beq_iff_eq])]
    rfl

/-- The depth is counted down only where it is not zero. -/
theorem agrees_topLevel (htargets : allNarrow targets = true) (hp : ∀ c, p c = targets.contains c) :
    Agrees (fun _ => True) (topLevelStep targets) (topLevelVerdict p) where
  narrow := by
    intro depth c _ hc
    rw [topLevelStep, topLevelVerdict, isOneOf_of_narrow htargets hc, isOneOf_of_narrow rfl hc,
      isOneOf_of_narrow rfl hc, ← hp, ← isOpening_eq, ← isClosing_eq]
    split
    · rfl
    · split
      · rfl
      · split
        · split
          · rfl
          · next hdepth =>
            rw [minus_of_le (Nat.pos_of_ne_zero hdepth), pure_bind]
        · rfl
  byte := by
    intro depth b _ hb
    rw [topLevelStep, isOneOf_of_le htargets hb, isOneOf_of_le rfl hb, isOneOf_of_le rfl hb,
      Bool.and_false]
    rfl
  wide := by
    intro depth c _ hc
    rw [topLevelVerdict, hp, isOpening_eq, isClosing_eq, contains_of_wide htargets hc,
      contains_of_wide rfl hc, contains_of_wide rfl hc, Bool.and_false]
    rfl
  next := fun _ _ => trivial

/-- The search finds the offset of the cut in front of the first target. -/
theorem findTopLevel_eq (htargets : allNarrow targets = true) (hp : ∀ c, p c = targets.contains c)
    (h : t <:+ whole) : findTopLevel whole (whole.offsetOf t) targets =
      pure ((t.cutAtTopLevel? p).map fun cut => whole.offsetOf cut.after) :=
  searchCode_eq (agrees_topLevel htargets hp) trivial h

/-- The offset behind a target. -/
theorem offsetOf_behind_target {cut : Cut} (htargets : allNarrow targets = true)
    (hp : ∀ c, p c = targets.contains c) (hcut : t.cutAtTopLevel? p = some cut) (h : t <:+ whole) :
    whole.offsetOf cut.after + 1 = whole.offsetOf cut.behind := by
  obtain ⟨c, rest, hafter, hc⟩ := exists_of_cutAtTopLevel? hcut
  have hsuffix := (suffix_of_cut (whole_of_cutInCode _ hcut)).trans h
  rw [hp, List.contains_iff_mem] at hc
  rw [Cut.behind, hafter, List.tail_cons]
  rw [hafter] at hsuffix
  exact offsetOf_add_one (utf8Size_of_allNarrow htargets hc) hsuffix

/-- The search for one character outside all brackets. -/
theorem findTopLevel_one {c : Char} (hc : c.utf8Size = 1) (h : t <:+ whole) :
    findTopLevel whole (whole.offsetOf t) [c] =
      pure ((t.cutAtTopLevel? (· == c)).map fun cut => whole.offsetOf cut.after) := by
  refine findTopLevel_eq ?_ (fun d => ?_) h
  · rw [allNarrow, List.all_cons, hc]
    rfl
  · rw [List.contains_cons, List.contains_nil, Bool.or_false]

/-- A cut at a character outside all brackets shows the character. -/
theorem eq_of_cutAtTopLevel? {c : Char} {cut : Cut} (hcut : t.cutAtTopLevel? (· == c) = some cut) :
    t = cut.before ++ c :: cut.behind ∧ cut.after = c :: cut.behind := by
  obtain ⟨d, rest, hafter, hd⟩ := exists_of_cutAtTopLevel? hcut
  rw [beq_iff_eq] at hd
  subst hd
  have hwhole := whole_of_cutInCode _ hcut
  rw [Cut.whole, hafter] at hwhole
  rw [Cut.behind, hafter]
  exact ⟨hwhole.symm, rfl⟩

end Search

section Lists

variable {whole t : Text} {separator : Char}

/-- Taking a list apart makes no misstep. -/
theorem piecesFrom_eq (hseparator : separator.utf8Size = 1) (h : t <:+ whole) :
    Source.piecesFrom whole separator (whole.offsetOf t) = pure (t.topLevelPieces separator) := by
  fun_induction topLevelPieces t separator with
  | case1 t cut hcut ih =>
    obtain ⟨hwhole, hafter⟩ := eq_of_cutAtTopLevel? hcut
    have hafter' : separator :: cut.behind <:+ whole := by
      rw [← hafter]
      exact (suffix_of_cut (whole_of_cutInCode _ hcut)).trans h
    rw [Source.piecesFrom, findTopLevel_one hseparator h, pure_bind, hcut]
    dsimp only [Option.map_some]
    rw [hafter, offsetOf_add_one hseparator hafter', ih ((List.suffix_cons _ _).trans hafter')]
    rw [hwhole] at h ⊢
    rw [slice_offsetOf h, pure_bind, pure_bind]
  | case2 t hcut =>
    rw [Source.piecesFrom, findTopLevel_one hseparator h, pure_bind, hcut]
    dsimp only [Option.map_none]
    rw [sliceFrom_offsetOf h, pure_bind]

theorem splitTopLevel_eq (hseparator : separator.utf8Size = 1) (t : Text) :
    splitTopLevel t separator = pure (t.splitTopLevel separator) := by
  have hpieces := piecesFrom_eq hseparator (List.suffix_refl t)
  rw [offsetOf_self] at hpieces
  rw [splitTopLevel, hpieces]
  rfl

/-- The offset behind a closing bracket. -/
theorem offsetOf_behind {opening closing : Char} {cut : Cut} (hclosing : closing.utf8Size = 1)
    (hcut : t.cutAtMatching? opening closing = some cut) (h : t <:+ whole) :
    whole.offsetOf cut.after + 1 = whole.offsetOf cut.behind := by
  obtain ⟨rest, hafter⟩ := exists_of_cutAtMatching? hcut
  have hsuffix := (suffix_of_cut (whole_of_cutAtMatching? hcut)).trans h
  rw [Cut.behind, hafter, List.tail_cons]
  rw [hafter] at hsuffix
  exact offsetOf_add_one hclosing hsuffix

/-- The slice between a bracket and the one that closes it. -/
theorem slice_inside {opening closing : Char} {cut : Cut} (hne : opening ≠ closing)
    (hopening : opening.utf8Size = 1) (hcut : t.cutAtMatching? opening closing = some cut)
    (h : t <:+ whole) :
    slice whole (whole.offsetOf t + 1) (whole.offsetOf cut.after) = pure cut.before.tail := by
  obtain ⟨inner, hinner⟩ := exists_before_of_cutAtMatching? hne hcut
  have hwhole := whole_of_cutAtMatching? hcut
  rw [Cut.whole, hinner, List.cons_append] at hwhole
  subst hwhole
  rw [hinner, List.tail_cons, offsetOf_add_one hopening h]
  exact slice_offsetOf ((List.suffix_cons _ _).trans h)

/-- One round of the search for the body of a function. -/
theorem findBodyOpen_step {passed : Text} {cut : Cut} (h : passed.reverse ++ t = whole)
    (hcut : t.cutAtTopLevel? (· == '{') = some cut) :
    Source.findBodyOpen whole (whole.offsetOf t) =
      if endsWithWord (cut.before.reverse ++ passed) "error".toList then
        match cut.after.cutAtMatching? '{' '}' with
        | none => pure none
        | some set => Source.findBodyOpen whole (whole.offsetOf set.behind)
      else pure (some (whole.offsetOf cut.after)) := by
  have ht : t <:+ whole := ⟨_, h⟩
  have hwhole := whole_of_cutInCode _ hcut
  have hafter := (suffix_of_cut hwhole).trans ht
  have hfront : sliceTo whole (whole.offsetOf cut.after) =
      pure (cut.before.reverse ++ passed).reverse := by
    rw [← h, ← hwhole, Cut.whole, ← List.append_assoc, sliceTo_offsetOf, List.reverse_append,
      List.reverse_reverse]
  rw [Source.findBodyOpen, findTopLevel_one (c := '{') rfl ht, pure_bind, hcut]
  dsimp only [Option.map_some]
  rw [hfront, pure_bind, List.reverse_reverse, findMatching_eq rfl rfl rfl hafter]
  split
  · cases hclosed : cut.after.cutAtMatching? '{' '}' with
    | none => rfl
    | some set =>
      rw [pure_bind]
      dsimp only [Option.map_some]
      rw [offsetOf_behind rfl hclosed hafter]
  · rfl

/-- Finding the body of a function makes no misstep. -/
theorem findBodyOpen_eq {passed : Text} (h : passed.reverse ++ t = whole) :
    Source.findBodyOpen whole (whole.offsetOf t) =
      pure ((t.cutAtBodyOpen? passed).map fun cut => whole.offsetOf cut.after) := by
  fun_induction cutAtBodyOpen? t passed with
  | case1 t passed hcut =>
    rw [Source.findBodyOpen, findTopLevel_one (c := '{') rfl ⟨_, h⟩, pure_bind, hcut]
    rfl
  | case2 t passed cut hcut front hword hclosed =>
    rw [findBodyOpen_step h hcut, if_pos hword, hclosed]
    rfl
  | case3 t passed cut hcut front hword set hclosed ih =>
    rw [findBodyOpen_step h hcut, if_pos hword, hclosed]
    dsimp only
    rw [ih, Option.map_map]
    · rfl
    · rw [← h, ← whole_of_cutInCode _ hcut, Cut.whole, ← whole_of_cutAtMatching? hclosed,
        ← set.through_append_behind, List.reverse_append, List.reverse_append, List.reverse_reverse,
        List.reverse_reverse]
      simp only [List.append_assoc]
  | case4 t passed cut hcut front hword =>
    rw [findBodyOpen_step h hcut, if_neg hword]
    rfl

end Lists

end ByOffset

end ClassFlattening
