import ClassFlattening.Proofs.Nesting
import ClassFlattening.Proofs.ByOffset.Brackets
import Mathlib.Order.Bounds.Defs

/-!
# Which bracket closes another

The bracket that closes one is at the first offset up to which as many brackets of the kind are closed as are
opened, counted over the code from the opening one on. The depth of the search is the difference of the two
counts. It changes by one at a bracket of the kind and nowhere else, so it comes to zero for the first time
exactly where the counts are equal for the first time, and up to there more brackets are opened than closed.
-/

namespace ClassFlattening

/-- The code among the characters of a text that start up to an offset, read from a mode on. What is code is
decided by the text as a whole. -/
def Mode.codeThrough : Mode → Nat → Text → Text
  | _, _, [] => []
  | mode, offset, c :: rest =>
    let (isCode, next) := mode.step c rest
    let more := if c.utf8Size ≤ offset then next.codeThrough (offset - c.utf8Size) rest else []
    if isCode then c :: more else more

namespace Text

/-- The code of a source from one offset through another one, read as code from the first one on. -/
def codeBetween (source : Text) (start stop : Nat) : Text :=
  match source.cutAt? start with
  | some cut => Mode.code.codeThrough (stop - start) cut.after
  | none => []

/-- Up to an offset in a source as many brackets of a kind are closed as are opened, counted over the code from
another offset on. -/
def IsLevelAt (source : Text) (opening closing : Char) (start stop : Nat) : Prop :=
  start ≤ stop ∧ stop < source.size ∧
    (source.codeBetween start stop).count opening = (source.codeBetween start stop).count closing

/-- A search with a depth counts the code of a text: where it stops, as many brackets more are closed than
opened as the depth says, and up to there, or to the end of the text, less. -/
structure CountsTo (opening closing : Char) (mode : Mode) (depth : Nat) (t : Text) (found : Option Nat) :
    Prop where
  level : ∀ n, found = some n → n < t.size ∧
    (mode.codeThrough n t).count closing = depth + (mode.codeThrough n t).count opening
  above : ∀ n < found.getD t.size,
    (mode.codeThrough n t).count closing < depth + (mode.codeThrough n t).count opening

section Counts

variable {opening closing c : Char} {mode next : Mode} {depth after : Nat} {t rest : Text} {found : Option Nat}

/-- The verdict counts a character that it passes. -/
theorem count_of_matchingVerdict (hne : closing ≠ opening)
    (h : matchingVerdict opening closing depth c = .pass after) (more : Text) :
    depth + (c :: more).count opening + more.count closing =
      after + more.count opening + (c :: more).count closing := by
  have hspec := matchingVerdict_spec opening closing depth c
  rw [h] at hspec
  rcases hspec with ⟨rfl, rfl⟩ | ⟨hopening, rfl, -, rfl⟩ | ⟨hopening, hclosing, rfl⟩
  · rw [List.count_cons_self, List.count_cons_of_ne hne.symm]
    omega
  · rw [List.count_cons_self, List.count_cons_of_ne hopening]
    omega
  · rw [List.count_cons_of_ne hopening, List.count_cons_of_ne hclosing]

/-- A search that passes a character counts it: the code through an offset behind the character is that behind
it, and perhaps the character, and through an offset within it at most the character. -/
theorem count_codeThrough_cons (hne : closing ≠ opening)
    (hpass : codeVerdict (matchingVerdict opening closing) (mode, depth) c rest = .pass (next, after)) :
    (∀ n, depth + (mode.codeThrough (c.utf8Size + n) (c :: rest)).count opening +
        (next.codeThrough n rest).count closing =
      after + (next.codeThrough n rest).count opening +
        (mode.codeThrough (c.utf8Size + n) (c :: rest)).count closing) ∧
      ∀ n < c.utf8Size, depth + (mode.codeThrough n (c :: rest)).count opening =
        after + (mode.codeThrough n (c :: rest)).count closing := by
  obtain ⟨hnext, hcode, hskip⟩ := codeVerdict_eq_pass_iff.1 hpass
  dsimp only at hnext hcode hskip
  subst hnext
  have hcount (more : Text) :
      depth + (if (mode.step c rest).1 then c :: more else more).count opening + more.count closing =
        after + more.count opening + (if (mode.step c rest).1 then c :: more else more).count closing := by
    cases hisCode : (mode.step c rest).1 with
    | true => exact count_of_matchingVerdict hne (hcode hisCode) more
    | false => rw [hskip hisCode]; rfl
  refine ⟨fun n => ?_, fun n hn => ?_⟩
  · have hbehind := hcount ((mode.step c rest).2.codeThrough n rest)
    simpa only [Mode.codeThrough, Nat.le_add_right, if_true, Nat.add_sub_cancel_left] using hbehind
  · have hwithin := hcount []
    rw [List.count_nil, List.count_nil, Nat.add_zero, Nat.add_zero] at hwithin
    simpa only [Mode.codeThrough, Nat.not_le_of_lt hn, if_false] using hwithin

/-- A search that passes a character counts the text from there on. -/
theorem CountsTo.cons (hne : closing ≠ opening) (hafter : 0 < after)
    (hpass : codeVerdict (matchingVerdict opening closing) (mode, depth) c rest = .pass (next, after))
    (h : CountsTo opening closing next after rest found) :
    CountsTo opening closing mode depth (c :: rest) (found.map (c.utf8Size + ·)) := by
  obtain ⟨hbehind, hwithin⟩ := count_codeThrough_cons hne hpass
  refine ⟨fun n hn => ?_, fun n hn => ?_⟩
  · obtain ⟨inner, hinner, rfl⟩ := Option.map_eq_some_iff.1 hn
    obtain ⟨hlt, hlevel⟩ := h.level inner hinner
    have hcount := hbehind inner
    rw [size_cons]
    omega
  · rcases Nat.lt_or_ge n c.utf8Size with hlt | hge
    · have hcount := hwithin n hlt
      omega
    · obtain ⟨m, rfl⟩ := Nat.exists_eq_add_of_le hge
      rw [size_cons, Option.getD_map (c.utf8Size + ·)] at hn
      have habove := h.above m (Nat.lt_of_add_lt_add_left hn)
      have hcount := hbehind m
      omega

/-- The search for a closing bracket counts the code. The induction is on the text, with a depth that is not
zero: at zero the search has stopped. -/
theorem countsTo_cutWhere (hne : closing ≠ opening) (hdepth : 0 < depth) :
    CountsTo opening closing mode depth t
      ((cutWhere (codeVerdict (matchingVerdict opening closing)) (mode, depth) t).map fun cut =>
        cut.before.size) := by
  induction t generalizing mode depth with
  | nil =>
    refine ⟨fun n hn => ?_, fun n hn => ?_⟩
    · cases hn
    · cases hn
  | cons c rest ih =>
    rw [cutWhere_cons]
    cases hverdict : codeVerdict (matchingVerdict opening closing) (mode, depth) c rest with
    | stop =>
      obtain ⟨hcode, hstop⟩ := codeVerdict_eq_stop_iff.1 hverdict
      have hspec := matchingVerdict_spec opening closing depth c
      rw [hstop] at hspec
      obtain ⟨hopening, rfl, hone⟩ := hspec
      dsimp only at hcode
      have hthrough : mode.codeThrough 0 (c :: rest) = [c] := by
        have hnot : ¬ c.utf8Size ≤ 0 := Nat.not_le_of_lt c.utf8Size_pos
        simp only [Mode.codeThrough, hcode, hnot, if_true, if_false]
      refine ⟨fun n hn => ?_, fun n hn => absurd hn (Nat.not_lt_zero n)⟩
      cases hn
      refine ⟨by rw [size_cons]; exact Nat.add_pos_left c.utf8Size_pos _, ?_⟩
      change (mode.codeThrough 0 (c :: rest)).count c = depth + (mode.codeThrough 0 (c :: rest)).count opening
      rw [hthrough, List.count_cons_self, List.count_cons_of_ne hopening, List.count_nil, List.count_nil, hone]
    | fail =>
      obtain ⟨-, hfail⟩ := codeVerdict_eq_fail_iff.1 hverdict
      have hspec := matchingVerdict_spec opening closing depth c
      rw [hfail] at hspec
      exact absurd hspec (Nat.ne_of_gt hdepth)
    | pass state =>
      obtain ⟨next, after⟩ := state
      have hafter : 0 < after := by
        obtain ⟨-, hcode, hskip⟩ := codeVerdict_eq_pass_iff.1 hverdict
        dsimp only at hcode hskip
        cases hisCode : (mode.step c rest).1 with
        | true =>
          have hspec := matchingVerdict_spec opening closing depth c
          rw [hcode hisCode] at hspec
          rcases hspec with h | h | h <;> omega
        | false => exact hskip hisCode ▸ hdepth
      have hrest : CountsTo opening closing next after rest _ := ih hafter
      have hcons := hrest.cons hne hafter hverdict
      simpa only [Option.map_map, Function.comp_def, size_cons] using hcons

/-- The search for the bracket that closes the first character counts the code from that character on. -/
theorem countsTo_cutAtMatching? (hopening : isOpening opening = true) (rest : Text) :
    CountsTo opening (closerOf opening) .code 0 (opening :: rest)
      ((cutAtMatching? (opening :: rest) opening (closerOf opening)).map fun cut => cut.before.size) := by
  have hne := closerOf_ne hopening
  have hfirst : codeVerdict (matchingVerdict opening (closerOf opening)) (.code, 0) opening rest =
      .pass (.code, 1) := by
    rw [codeVerdict, step_of_isCodeChar (isCodeChar_of_bracket (by rw [hopening]; rfl)), matchingVerdict,
      if_pos rfl]
    rfl
  have hrest : CountsTo opening (closerOf opening) .code 1 rest _ := countsTo_cutWhere hne Nat.one_pos
  have hcons := hrest.cons hne Nat.one_pos hfirst
  have hhead : (opening :: rest).head? = some opening := rfl
  rw [cutAtMatching?, if_pos hhead, cutInCode_eq_cutWhere, cutWhere_cons, hfirst]
  simpa only [Option.map_map, Function.comp_def, size_cons] using hcons

end Counts

section Offsets

variable {opening : Char} {source : Text} {offset : Nat}

/-- Only an opening bracket has one that closes it. -/
theorem matchingOffset?_eq_none (hopening : opening.utf8Size = 1)
    (hbyte : source.bytes[offset]? ≠ some opening.toUInt8) (closing : Char) :
    source.matchingOffset? offset opening closing = none := by
  rw [matchingOffset?, Option.bind_eq_none_iff]
  intro cut hcut
  obtain ⟨rfl, rfl⟩ := cutAt?_eq_some_iff.1 hcut
  have hhead : cut.after.head? ≠ some opening := by
    intro hhead
    obtain ⟨rest, hafter⟩ := List.head?_eq_some_iff.1 hhead
    exact hbyte ((bytes_getElem?_eq_some_iff hopening).2 ⟨cut.before, rest, by rw [Cut.whole, hafter], rfl⟩)
  rw [cutAtMatching?, if_neg hhead]
  rfl

/-- Between an opening bracket and the one that is found, or the end, more brackets are opened than closed, and
at the one that is found the counts are level. -/
theorem counts_of_matchingOffset? (hopening : isOpening opening = true) (front rest : Text) :
    (∀ p, (front ++ opening :: rest).matchingOffset? front.size opening (closerOf opening) = some p →
        (front ++ opening :: rest).IsLevelAt opening (closerOf opening) front.size p) ∧
      ∀ p, front.size ≤ p →
        p < ((front ++ opening :: rest).matchingOffset? front.size opening (closerOf opening)).getD
          (front ++ opening :: rest).size →
        ((front ++ opening :: rest).codeBetween front.size p).count (closerOf opening) <
          ((front ++ opening :: rest).codeBetween front.size p).count opening := by
  have hcounts := countsTo_cutAtMatching? hopening rest
  have hcut := cutAt?_append front (opening :: rest)
  have hbetween (n : Nat) : (front ++ opening :: rest).codeBetween front.size (front.size + n) =
      Mode.code.codeThrough n (opening :: rest) := by
    rw [codeBetween, hcut, Nat.add_sub_cancel_left]
  have hfound : (front ++ opening :: rest).matchingOffset? front.size opening (closerOf opening) =
      ((cutAtMatching? (opening :: rest) opening (closerOf opening)).map fun cut => cut.before.size).map
        (front.size + ·) := by
    rw [matchingOffset?_append, Option.map_map]
    rfl
  rw [hfound]
  refine ⟨fun p hp => ?_, fun p hle hlt => ?_⟩
  · obtain ⟨n, hn, rfl⟩ := Option.map_eq_some_iff.1 hp
    obtain ⟨hsize, hlevel⟩ := hcounts.level n hn
    rw [IsLevelAt, hbetween, size_append, hlevel]
    omega
  · obtain ⟨n, rfl⟩ := Nat.exists_eq_add_of_le hle
    rw [hbetween, ← Nat.zero_add (List.count opening _)]
    rw [size_append, Option.getD_map (front.size + ·)] at hlt
    exact hcounts.above n (Nat.lt_of_add_lt_add_left hlt)

end Offsets

end Text

namespace ByOffset

open Text

/-- An opening bracket and the one that closes it are one byte each. -/
theorem utf8Size_of_isOpening {opening : Char} (h : isOpening opening = true) :
    opening.utf8Size = 1 ∧ (closerOf opening).utf8Size = 1 := by
  simp only [isOpening, Bool.or_eq_true, beq_iff_eq] at h
  rcases h with (rfl | rfl) | rfl <;> exact ⟨rfl, rfl⟩

/-- What is found with a property, in front of everything else with it, is the least with the property. -/
theorem isLeast_iff_of_found {found : Option Nat} {p : Nat → Prop} (hfound : ∀ n, found = some n → p n)
    (hfirst : ∀ n, p n → ∃ m ≤ n, found = some m) :
    (∀ n, found = some n ↔ IsLeast {n | p n} n) ∧ (found = none ↔ ¬ ∃ n, p n) := by
  constructor
  · intro n
    constructor
    · intro hn
      refine ⟨hfound n hn, fun m hm => ?_⟩
      obtain ⟨k, hle, hk⟩ := hfirst m hm
      rw [hn] at hk
      cases hk
      exact hle
    · rintro ⟨hn, hleast⟩
      obtain ⟨m, hle, hm⟩ := hfirst n hn
      rw [hm, Nat.le_antisymm hle (hleast (hfound m hm))]
  · constructor
    · rintro hnone ⟨n, hn⟩
      obtain ⟨m, -, hm⟩ := hfirst n hn
      rw [hnone] at hm
      cases hm
    · intro hempty
      cases hn : found with
      | none => rfl
      | some n => exact absurd ⟨n, hfound n hn⟩ hempty

/-- The search for the bracket that closes the one at an offset, over any source and from any offset, finds the
least offset up to which as many brackets of the kind are closed as are opened, and nothing only if the byte at
the offset is not the opening bracket or there is no such offset. It never counts its depth below zero, nor
makes any other misstep: at each offset that it passes more brackets are opened than closed. -/
theorem findMatching_finds_first_level (source : Text) (offset : Nat) (opening : Char)
    (hopening : isOpening opening = true) :
    findMatching source offset opening (closerOf opening) =
        pure (source.matchingOffset? offset opening (closerOf opening)) ∧
      (∀ p, source.matchingOffset? offset opening (closerOf opening) = some p ↔
        source.bytes[offset]? = some opening.toUInt8 ∧
          IsLeast {p | source.IsLevelAt opening (closerOf opening) offset p} p) ∧
      (source.matchingOffset? offset opening (closerOf opening) = none ↔
        ¬ (source.bytes[offset]? = some opening.toUInt8 ∧
          ∃ p, source.IsLevelAt opening (closerOf opening) offset p)) ∧
      (source.bytes[offset]? = some opening.toUInt8 → ∀ p, offset ≤ p →
        p < (source.matchingOffset? offset opening (closerOf opening)).getD source.size →
        (source.codeBetween offset p).count (closerOf opening) <
          (source.codeBetween offset p).count opening) := by
  obtain ⟨hone, hcloser⟩ := utf8Size_of_isOpening hopening
  by_cases hbyte : source.bytes[offset]? = some opening.toUInt8
  · obtain ⟨front, rest, rfl, rfl⟩ := (bytes_getElem?_eq_some_iff hone).1 hbyte
    obtain ⟨hlevel, habove⟩ := counts_of_matchingOffset? hopening front rest
    have hfirst : ∀ p, (front ++ opening :: rest).IsLevelAt opening (closerOf opening) front.size p →
        ∃ m ≤ p,
          (front ++ opening :: rest).matchingOffset? front.size opening (closerOf opening) = some m := by
      rintro p ⟨hle, hlt, hcount⟩
      cases hfound : (front ++ opening :: rest).matchingOffset? front.size opening (closerOf opening) with
      | none =>
        rw [hfound] at habove
        exact absurd hcount (Nat.ne_of_gt (habove p hle hlt))
      | some m =>
        rw [hfound] at habove
        exact ⟨m, Nat.le_of_not_lt fun hbefore => absurd hcount (Nat.ne_of_gt (habove p hle hbefore)), rfl⟩
    obtain ⟨hsome, hnone⟩ := isLeast_iff_of_found hlevel hfirst
    refine ⟨?_, fun p => by simpa only [hbyte, true_and] using hsome p,
      by simpa only [hbyte, true_and] using hnone, fun _ => habove⟩
    have hsearch := findMatching_eq hopening hone hcloser (List.suffix_append front (opening :: rest))
    rw [offsetOf_append] at hsearch
    rw [hsearch, matchingOffset?_append]
    congr 1
    apply Option.map_congr
    intro cut hcut
    have hafter := offsetOf_cut (whole_of_cutAtMatching? hcut) (List.suffix_append front (opening :: rest))
    rw [← hafter, offsetOf_append]
  · have hnone := matchingOffset?_eq_none hone hbyte (closerOf opening)
    rw [hnone]
    refine ⟨?_, by simp [hbyte], by simp [hbyte], fun h => absurd h hbyte⟩
    rw [findMatching, if_neg (by simpa using hbyte)]

/-- Behind a character of two bytes, brackets in literals and in a comment are passed; a bracket whose closing
one stands in an open literal is not closed. -/
theorem findMatching_finds_first_level_call :
    findMatching "é f(g(')'), // )\n \"\\\")\" )".toList 4 '(' ')' = pure (some 25) ∧
      IsLeast {p | IsLevelAt "é f(g(')'), // )\n \"\\\")\" )".toList '(' ')' 4 p} 25 ∧
      ¬ ∃ p, IsLevelAt "[ \"]".toList '[' ']' 0 p := by
  obtain ⟨hcall, hfound, -⟩ :=
    findMatching_finds_first_level "é f(g(')'), // )\n \"\\\")\" )".toList 4 '(' rfl
  obtain ⟨-, -, hnone, -⟩ := findMatching_finds_first_level "[ \"]".toList 0 '[' rfl
  refine ⟨hcall, ((hfound 25).1 rfl).2, fun hlevel => hnone.1 rfl ⟨rfl, hlevel⟩⟩

end ByOffset

end ClassFlattening
