import ClassFlattening.Proofs.RenamedWords
import Mathlib.Data.List.SplitBy

/-!
# Renaming part by part

A text is taken apart from its start into literals, comments and the code between them, and the code into
runs: as many characters as are all of identifiers, or all of none. Renaming replaces each run of the code
that is the old name and copies everything else. A part is told by its first characters, so renaming is
followed through one part at a time.
-/

namespace ClassFlattening

/-- Part of a text: a literal through its end, a comment up to the end of its line, or code. -/
inductive Part where
  | code (text : Text)
  | literal (text : Text)
  | comment (text : Text)
deriving DecidableEq, Repr

/-- The text of a part. -/
def Part.text : Part → Text
  | code text | literal text | comment text => text

namespace Text

/-- Cuts behind the quote or the newline that ends a literal. The character behind a backslash ends
nothing. -/
def cutLiteral (quote : Char) : Text → Cut
  | c :: d :: rest =>
    if c = '\\' then ⟨c :: d :: (cutLiteral quote rest).before, (cutLiteral quote rest).after⟩
    else if c = quote ∨ c = '\n' then ⟨[c], d :: rest⟩
    else ⟨c :: (cutLiteral quote (d :: rest)).before, (cutLiteral quote (d :: rest)).after⟩
  | t => ⟨t, []⟩

/-- Whether a comment starts a text. -/
def startsComment (t : Text) : Bool := "//".toList.isPrefixOf t

/-- Cuts in front of the first literal or comment. -/
def cutCode : Text → Cut
  | [] => ⟨[], []⟩
  | c :: rest =>
    if isQuote c || startsComment (c :: rest) then ⟨[], c :: rest⟩
    else ⟨c :: (cutCode rest).before, (cutCode rest).after⟩

/-- Takes the first part off a text. -/
def firstPart : Text → Part × Text
  | [] => (.code [], [])
  | c :: rest =>
    if isQuote c then (.literal (c :: (cutLiteral c rest).before), (cutLiteral c rest).after)
    else if startsComment (c :: rest) then
      (.comment ((c :: rest).takeWhile (· != '\n')), (c :: rest).dropWhile (· != '\n'))
    else (.code (cutCode (c :: rest)).before, (cutCode (c :: rest)).after)

/-- The longest runs of characters that are all of identifiers, or all of none. -/
def runs (t : Text) : List Text := t.splitBy fun c d => isIdentChar c == isIdentChar d

section Cuts

variable {t : Text} {c : Char}

theorem startsComment_iff : t.startsComment = true ↔ ∃ rest, t = '/' :: '/' :: rest := by
  rw [startsComment, List.isPrefixOf_iff_prefix]
  constructor
  · rintro ⟨rest, hrest⟩
    exact ⟨rest, hrest.symm⟩
  · rintro ⟨rest, rfl⟩
    exact ⟨rest, rfl⟩

theorem whole_cutLiteral (quote : Char) (t : Text) : (t.cutLiteral quote).whole = t := by
  fun_induction cutLiteral quote t with
  | case1 d rest ih => exact congrArg (fun t => '\\' :: d :: t) ih
  | case2 c d rest _ _ => rfl
  | case3 c d rest _ _ ih => exact congrArg (c :: ·) ih
  | case4 t _ => exact List.append_nil t

theorem whole_cutCode (t : Text) : t.cutCode.whole = t := by
  fun_induction cutCode t with
  | case1 => rfl
  | case2 c rest _ => rfl
  | case3 c rest _ ih => exact congrArg (c :: ·) ih

/-- The first part and the text behind it make up the text. -/
theorem text_firstPart_append (t : Text) : t.firstPart.1.text ++ t.firstPart.2 = t := by
  cases t with
  | nil => rfl
  | cons c rest =>
    rw [firstPart]
    split
    · exact congrArg (c :: ·) (whole_cutLiteral c rest)
    · split
      · exact List.takeWhile_append_dropWhile
      · exact whole_cutCode (c :: rest)

/-- The first part of a text has a character. -/
theorem length_firstPart_lt (c : Char) (rest : Text) :
    (firstPart (c :: rest)).2.length < (c :: rest).length := by
  have hne : (firstPart (c :: rest)).1.text ≠ [] := by
    rw [firstPart]
    split
    · exact List.cons_ne_nil _ _
    · next hquote =>
      split
      · next hcomment =>
        obtain ⟨more, hmore⟩ := startsComment_iff.1 hcomment
        rw [hmore]
        exact List.cons_ne_nil _ _
      · next hcomment =>
        rw [cutCode, if_neg (by simp [hquote, hcomment])]
        exact List.cons_ne_nil _ _
  have hlength := congrArg List.length (text_firstPart_append (c :: rest))
  have hpos := List.length_pos_iff.2 hne
  rw [List.length_append] at hlength
  omega

end Cuts

/-- The parts of a text, in order. -/
def parts (t : Text) : List Part :=
  match t with
  | [] => []
  | c :: rest => (firstPart (c :: rest)).1 :: parts (firstPart (c :: rest)).2
termination_by t.length
decreasing_by exact length_firstPart_lt c rest

/-- A text is code throughout. -/
def IsCode (t : Text) : Prop := t.cutCode.after = []

section IsCode

variable {s t : Text} {c : Char}

theorem isCode_cons : IsCode (c :: t) ↔ (isQuote c = false ∧ startsComment (c :: t) = false) ∧ t.IsCode := by
  rw [IsCode, IsCode, cutCode]
  split
  · next h =>
    rw [Bool.or_eq_true] at h
    refine iff_of_false (List.cons_ne_nil c t) ?_
    rintro ⟨⟨hquote, hcomment⟩, -⟩
    simp [hquote, hcomment] at h
  · next h =>
    rw [Bool.or_eq_true, not_or, Bool.not_eq_true, Bool.not_eq_true] at h
    simp only [h, and_self, true_and]

/-- A character of an identifier starts no comment. -/
theorem startsComment_of_isIdentChar (hc : isIdentChar c = true) : startsComment (c :: t) = false := by
  rw [Bool.eq_false_iff]
  intro h
  obtain ⟨more, hmore⟩ := startsComment_iff.1 h
  obtain rfl := (List.cons.inj hmore).1
  exact absurd hc (by decide)

/-- Characters of identifiers are code. -/
theorem isCode_append (hs : ∀ c ∈ s, isIdentChar c = true) : (s ++ t).IsCode ↔ t.IsCode := by
  induction s with
  | nil => rfl
  | cons c s ih =>
    have hc := hs c List.mem_cons_self
    rw [List.cons_append, isCode_cons, ih fun d hd => hs d (List.mem_cons_of_mem c hd)]
    exact and_iff_right ⟨Mode.isQuote_of_isIdentChar hc, startsComment_of_isIdentChar hc⟩

/-- A comment that starts a text starts it with more behind it. -/
theorem startsComment_append (h : s.startsComment = true) (t : Text) : (s ++ t).startsComment = true := by
  obtain ⟨rest, rfl⟩ := startsComment_iff.1 h
  exact startsComment_iff.2 ⟨rest ++ t, rfl⟩

/-- The code in front of the first literal or comment is code throughout. -/
theorem isCode_cutCode (t : Text) : t.cutCode.before.IsCode := by
  fun_induction cutCode t with
  | case1 => rfl
  | case2 c rest _ => rfl
  | case3 c rest h ih =>
    rw [Bool.or_eq_true, not_or, Bool.not_eq_true, Bool.not_eq_true] at h
    refine isCode_cons.2 ⟨⟨h.1, ?_⟩, ih⟩
    rw [Bool.eq_false_iff]
    intro hcomment
    have hmore := startsComment_append hcomment (cutCode rest).after
    rw [List.cons_append, show (cutCode rest).before ++ (cutCode rest).after = rest from whole_cutCode rest,
      h.2] at hmore
    cases hmore

/-- A literal or a comment is behind the code in front of it, or nothing. -/
theorem cutCode_after (t : Text) : t.cutCode.after.cutCode = ⟨[], t.cutCode.after⟩ := by
  fun_induction cutCode t with
  | case1 => rfl
  | case2 c rest h => rw [cutCode, if_pos h]
  | case3 c rest _ ih => exact ih

/-- Code in front of a literal or a comment, or of nothing, is all the code that there is. -/
theorem cutCode_append (hs : s.IsCode) (ht : t.cutCode = ⟨[], t⟩)
    (hslash : s.getLast? = some '/' → t.head? ≠ some '/') : (s ++ t).cutCode = ⟨s, t⟩ := by
  induction s with
  | nil => exact ht
  | cons c s ih =>
    obtain ⟨⟨hquote, hcomment⟩, hs⟩ := isCode_cons.1 hs
    have hnext : startsComment (c :: (s ++ t)) = false := by
      cases s with
      | cons d s => exact hcomment
      | nil =>
        rw [Bool.eq_false_iff]
        intro h
        obtain ⟨more, hmore⟩ := startsComment_iff.1 h
        obtain ⟨rfl, rfl⟩ := List.cons.inj hmore
        exact hslash rfl rfl
    have hrest := ih hs fun hlast => hslash (by rw [List.getLast?_cons, hlast]; rfl)
    rw [List.cons_append, cutCode, hquote, hnext, hrest]
    rfl

/-- No comment starts with the last character of the code in front of one. -/
theorem getLast?_cutCode (t : Text) (h : t.cutCode.before.getLast? = some '/') :
    t.cutCode.after.head? ≠ some '/' := by
  fun_induction cutCode t with
  | case1 => cases h
  | case2 c rest _ => cases h
  | case3 c rest hcode ih =>
    have hwhole : (cutCode rest).before ++ (cutCode rest).after = rest := whole_cutCode rest
    cases hbefore : (cutCode rest).before with
    | cons d more =>
      apply ih
      rw [hbefore, List.getLast?_cons_cons] at h
      rw [hbefore]
      exact h
    | nil =>
      rw [hbefore] at h
      obtain rfl : c = '/' := Option.some.inj h
      rw [hbefore, List.nil_append] at hwhole
      rw [hwhole]
      intro hslash
      obtain ⟨more, rfl⟩ := List.head?_eq_some_iff.1 hslash
      exact hcode rfl

/-- A literal or a comment does not start within a word. -/
theorem startsInWord_of_cutCode (h : t.cutCode = ⟨[], t⟩) : t.startsInWord = false := by
  cases t with
  | nil => rfl
  | cons c t =>
    rw [startsInWord_cons, Bool.eq_false_iff]
    intro hc
    rw [cutCode, Mode.isQuote_of_isIdentChar hc, startsComment_of_isIdentChar hc] at h
    exact List.cons_ne_nil _ _ (congrArg Cut.before h)

end IsCode

section Runs

variable {s t old new : Text} {c : Char}

/-- Characters that are all of identifiers, or all of none, are a run in front of a character of the other
kind. -/
theorem runs_append (hne : s ≠ []) {isIdent : Bool} (hs : ∀ c ∈ s, isIdentChar c = isIdent)
    (ht : ∀ c ∈ t.head?, isIdentChar c = !isIdent) : (s ++ t).runs = s :: t.runs := by
  have hrun : s.runs = [s] := by
    refine List.splitBy_of_isChain hne (List.Pairwise.isChain (List.pairwise_of_forall_mem_list ?_))
    intro c hc d hd
    rw [hs c hc, hs d hd, beq_self_eq_true]
  rw [runs, List.splitBy_append, ← runs, hrun]
  · rfl
  · intro c hc d hd
    rw [hs c (List.mem_of_getLast? hc), ht d hd]
    cases isIdent <;> rfl

/-- A word is a run in front of anything else. -/
theorem runs_word (hs : s.IsWord) (ht : t.startsInWord = false) : (s ++ t).runs = s :: t.runs := by
  refine runs_append hs.1 hs.2 fun c hc => ?_
  rw [startsInWord, Option.mem_def.1 hc] at ht
  exact ht

/-- The text with the runs that are the old name replaced by the new one. -/
def replaceRuns (t old new : Text) : Text := t.runs.flatMap fun run => if run = old then new else run

@[simp] theorem replaceRuns_nil (old new : Text) : replaceRuns [] old new = [] := rfl

/-- Code is copied up to the first word in it. -/
theorem replaceRuns_sign (hold : old.IsWord) (hc : isIdentChar c = false) :
    replaceRuns (c :: t) old new = c :: t.replaceRuns old new := by
  -- The signs up to the next word are one run, with or without the first of them.
  have hsigns : ∀ {u : Text}, u ≠ [] → (∀ d ∈ u, isIdentChar d = false) → ∀ {v : Text},
      (∀ d ∈ v.head?, isIdentChar d = true) → replaceRuns (u ++ v) old new = u ++ replaceRuns v old new := by
    intro u hne hu v hv
    have hother : u ≠ old := by
      rintro rfl
      obtain ⟨d, u, rfl⟩ := List.exists_cons_of_ne_nil hne
      have hd := hu d List.mem_cons_self
      rw [hold.2 d List.mem_cons_self] at hd
      cases hd
    rw [replaceRuns, runs_append hne hu hv, List.flatMap_cons, if_neg hother, replaceRuns]
  have hfront : ∀ d ∈ t.takeWhile (fun d => !isIdentChar d), isIdentChar d = false := fun d hd =>
    Bool.not_eq_true' _ ▸ List.all_eq_true.1 List.all_takeWhile d hd
  have hback : ∀ d ∈ (t.dropWhile fun d => !isIdentChar d).head?, isIdentChar d = true := by
    intro d hd
    have hnot := List.head?_dropWhile_not (fun d => !isIdentChar d) t
    rw [Option.mem_def.1 hd] at hnot
    simpa using hnot
  rw [← List.takeWhile_append_dropWhile (p := fun d => !isIdentChar d) (l := t), ← List.cons_append,
    hsigns (List.cons_ne_nil _ _) (List.forall_mem_cons.2 ⟨hc, hfront⟩) hback]
  rcases List.eq_nil_or_concat (t.takeWhile fun d => !isIdentChar d) with hnil | ⟨_, _, hcons⟩
  · rw [hnil]
    rfl
  · rw [hsigns (by simp [hcons]) hfront hback]
    rfl

/-- The old name is replaced, and any other word is copied. -/
theorem replaceRuns_word (hs : s.IsWord) (ht : t.startsInWord = false) :
    (s ++ t).replaceRuns old new = (if s = old then new else s) ++ t.replaceRuns old new := by
  rw [replaceRuns, runs_word hs ht, List.flatMap_cons, replaceRuns]

end Runs

end Text

open Text

/-- A part with a name replaced if it is code. -/
def Part.rename (old new : Text) : Part → Part
  | code text => code (text.replaceRuns old new)
  | literal text => literal text
  | comment text => comment text

section Rename

variable {old new t : Text} {mode : Mode} {inWord : Bool} {c : Char}

/-- What is no code is copied. -/
theorem renameFrom_outside (hmode : mode ≠ .code) :
    renameFrom old new mode inWord 0 (c :: t) =
      c :: renameFrom old new (mode.read (· == '/') c t).2 (isIdentChar c) 0 t := by
  rw [renameFrom]
  simp [hmode]

/-- A literal is copied through its end. -/
theorem renameFrom_literal (hold : old.IsWord) {quote : Char} (hquote : isIdentChar quote = false) (t : Text) :
    renameFrom old new (.quoted quote) inWord 0 t =
      (t.cutLiteral quote).before ++ renameFrom old new .code false 0 (t.cutLiteral quote).after := by
  fun_induction cutLiteral quote t generalizing inWord with
  | case1 d rest ih =>
    have hescape : Mode.read (· == '/') (.quoted quote) '\\' (d :: rest) = (false, .escaped quote) := rfl
    rw [renameFrom_outside (by simp), hescape, renameFrom_outside (by simp), Mode.read, ih]
    rfl
  | case2 c d rest hc hend =>
    have hsign : isIdentChar c = false := by
      rcases hend with rfl | rfl
      · exact hquote
      · decide
    have hread : (Mode.read (· == '/') (.quoted quote) c (d :: rest)).2 = .code := by
      rw [Mode.read, if_neg hc]
      split
      · rfl
      · next hline => rw [if_pos (hend.resolve_right hline)]
    rw [renameFrom_sign hold hsign, hread]
    rfl
  | case3 c d rest hc hend ih =>
    rw [not_or] at hend
    have hread : Mode.read (· == '/') (.quoted quote) c (d :: rest) = (false, .quoted quote) := by
      rw [Mode.read, if_neg hc, if_neg hend.2, if_neg hend.1]
    rw [renameFrom_outside (by simp), hread, ih]
    rfl
  | case4 t ht =>
    rw [renameFrom_nil, List.append_nil]
    cases t with
    | nil => rw [renameFrom_nil]
    | cons c t =>
      cases t with
      | nil => rw [renameFrom_outside (by simp), renameFrom_nil]
      | cons d t => exact absurd rfl (ht c d t)

/-- A comment is copied up to the end of its line. -/
theorem renameFrom_comment (hold : old.IsWord) (t : Text) :
    renameFrom old new .line inWord 0 t =
      t.takeWhile (· != '\n') ++ renameFrom old new .code false 0 (t.dropWhile (· != '\n')) := by
  induction t generalizing inWord with
  | nil => rw [renameFrom_nil, List.dropWhile_nil, renameFrom_nil]; rfl
  | cons c t ih =>
    by_cases hc : c = '\n'
    · subst hc
      have hsign : isIdentChar '\n' = false := by decide
      rw [renameFrom_sign hold hsign, List.takeWhile_cons_of_neg (by simp),
        List.dropWhile_cons_of_neg (by simp), renameFrom_sign hold hsign]
      rfl
    · have hread : Mode.read (· == '/') .line c t = (false, .line) := by rw [Mode.read, if_neg hc]
      rw [renameFrom_outside (by simp), hread, ih, List.takeWhile_cons_of_pos (by simpa using hc),
        List.dropWhile_cons_of_pos (by simpa using hc)]
      rfl

/-- A character of code that goes on is read as code. -/
theorem read_of_isCode (h : IsCode (c :: t)) : Mode.code.read (· == '/') c t = (true, .code) := by
  obtain ⟨⟨hquote, hcomment⟩, -⟩ := isCode_cons.1 h
  rw [Mode.read, hquote, if_neg Bool.false_ne_true, if_neg]
  rw [Bool.and_eq_true, beq_iff_eq, isDoubled, beq_iff_eq]
  rintro ⟨rfl, hdoubled⟩
  obtain ⟨more, rfl⟩ := List.head?_eq_some_iff.1 hdoubled
  cases hcomment

/-- Behind code a renaming reads code. -/
theorem behind_of_isCode (h : t.IsCode) : Mode.code.behind t = .code := by
  induction t with
  | nil => rfl
  | cons c t ih => rw [Mode.behind_cons, read_of_isCode h, ih (isCode_cons.1 h).2]

/-- In code that goes on the runs are replaced. -/
theorem renameFrom_of_isCode (hold : old.IsWord) (h : t.IsCode) :
    renameFrom old new .code false 0 t = t.replaceRuns old new := by
  induction t using wordInduction with
  | nil => rw [renameFrom_nil, replaceRuns_nil]
  | sign c t hc ih =>
    rw [renameFrom_sign hold hc, read_of_isCode h, ih (isCode_cons.1 h).2, replaceRuns_sign hold hc]
  | word w t hw ht ih =>
    rw [renameFrom_word hold Mode.isProper_code hw ht, replaceRuns_word hw ht,
      ← ih ((isCode_append hw.2).1 h)]
    simp [Mode.behindWord]

/-- The first part and the text behind it are renamed one after the other. -/
theorem rename_firstPart (hold : old.IsWord) (t : Text) :
    rename t old new = (t.firstPart.1.rename old new).text ++ rename t.firstPart.2 old new := by
  simp only [rename_eq_renameFrom hold]
  cases t with
  | nil => rw [renameFrom_nil]; rfl
  | cons c rest =>
    rw [firstPart]
    split
    · next hquote =>
      have hsign : isIdentChar c = false := by
        rw [Bool.eq_false_iff]
        intro hc
        rw [Mode.isQuote_of_isIdentChar hc] at hquote
        cases hquote
      have hread : (Mode.code.read (· == '/') c rest).2 = .quoted c := by rw [Mode.read, if_pos hquote]
      rw [renameFrom_sign hold hsign, hread, renameFrom_literal hold hsign]
      rfl
    · split
      · next hquote hcomment =>
        obtain ⟨more, hmore⟩ := startsComment_iff.1 hcomment
        obtain ⟨rfl, rfl⟩ := List.cons.inj hmore
        have hsign : isIdentChar '/' = false := by decide
        have hread : (Mode.code.read (· == '/') '/' ('/' :: more)).2 = .line := rfl
        rw [renameFrom_sign hold hsign, hread, renameFrom_comment hold]
        rfl
      · conv_lhs => rw [← whole_cutCode (c :: rest), Cut.whole]
        rw [renameFrom_append hold Mode.isProper_code
            (parted_of_startsInWord (startsInWord_of_cutCode (cutCode_after _))) (getLast?_cutCode _),
          behind_of_isCode (isCode_cutCode _), renameFrom_of_isCode hold (isCode_cutCode _)]
        rfl

/-- Renaming replaces the old name where it is a run of the code, and copies everything else. -/
theorem rename_parts (hold : old.IsWord) (t new : Text) :
    rename t old new = t.parts.flatMap fun part => (part.rename old new).text := by
  fun_induction parts t with
  | case1 => rw [rename_eq_renameFrom hold, renameFrom_nil]; rfl
  | case2 c rest ih => rw [rename_firstPart hold, ih, List.flatMap_cons]

/-- A name beside a letter that is not ASCII, in a literal with an escaped quote, in a literal that its line
ends, in a comment, and between signs. -/
def scatteredSource : Text := "A = éA + \"\\\"A\" ++ 'A\nA/A // A\n(A)".toList

/-- The name is replaced where it is a run of the code. -/
theorem rename_parts_scatteredSource :
    IsWord "A".toList ∧
      scatteredSource.parts = [.code "A = éA + ".toList, .literal "\"\\\"A\"".toList, .code " ++ ".toList,
        .literal "'A\n".toList, .code "A/A ".toList, .comment "// A".toList, .code "\n(A)".toList] ∧
      rename scatteredSource "A".toList "Bé".toList =
        "Bé = éA + \"\\\"A\" ++ 'A\nBé/Bé // A\n(Bé)".toList := by
  have hold : IsWord "A".toList := ⟨by decide, forall_of_all (by decide)⟩
  refine ⟨hold, by decide +kernel, ?_⟩
  rw [rename_parts hold]
  decide +kernel

end Rename

end ClassFlattening
