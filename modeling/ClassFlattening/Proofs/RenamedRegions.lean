import ClassFlattening.Proofs.RenamedWords

/-!
# Renaming and what is no code

A source is read stretch by stretch: some code, then a literal, a comment or a line of a multiline literal
that is stepped over as a whole, and so on. Renaming reads the source in its own way. It knows literals and
comments and leaves them as they are, but a pair of backslashes starts nothing for it, so it renames in
the lines of multiline literals. It comes back into step behind such a line, unless the line is left
within a literal whose newline is escaped: then the next line is not read as code from its start.
-/

namespace ClassFlattening

namespace Mode

/-- The text in front of where it is code again. -/
def inside : Mode → Text → Text
  | code, _ => []
  | _, [] => []
  | mode, c :: rest => if (mode.step c rest).1 then [] else c :: (mode.step c rest).2.inside rest

@[simp] theorem inside_code (t : Text) : code.inside t = [] := by
  cases t <;> rfl

@[simp] theorem inside_nil (mode : Mode) : mode.inside [] = [] := by
  cases mode <;> rfl

theorem inside_cons {mode : Mode} (hmode : mode ≠ code) (c : Char) (rest : Text) :
    mode.inside (c :: rest) =
      if (mode.step c rest).1 then [] else c :: (mode.step c rest).2.inside rest := by
  cases mode with
  | code => exact absurd rfl hmode
  | quoted quote => rfl
  | escaped quote => rfl
  | line => rfl

/-- Nothing is lost between what is no code and the rest. -/
theorem inside_append_resume (mode : Mode) (t : Text) : mode.inside t ++ mode.resume t = t := by
  induction t generalizing mode with
  | nil => rw [inside_nil, resume_nil, List.nil_append]
  | cons c rest ih =>
    by_cases hmode : mode = code
    · rw [hmode, inside_code, resume_code, List.nil_append]
    · rw [inside_cons hmode, resume_cons hmode]
      split
      · rfl
      · rw [List.cons_append, ih]

/-- Outside code a renaming reads as the scanner does. -/
theorem read_eq_step {mode : Mode} (hmode : mode ≠ code) (c : Char) (rest : Text) :
    mode.read (· == '/') c rest = mode.step c rest := by
  cases mode with
  | code => exact absurd rfl hmode
  | quoted quote => rfl
  | escaped quote => rfl
  | line => rfl

/-- Only a newline ends what is no code and is code itself. -/
theorem eq_newline_of_isCode {mode : Mode} (hmode : mode ≠ code) {c : Char} {rest : Text}
    (h : (mode.step c rest).1 = true) : c = '\n' := by
  by_contra hc
  cases mode with
  | code => exact hmode rfl
  | quoted quote =>
    rw [step, read, if_neg hc] at h
    split at h
    · cases h
    · split at h <;> cases h
  | escaped quote => cases h
  | line =>
    rw [step, read, if_neg hc] at h
    cases h

/-- A character at which code ends is a sign. -/
theorem sign_of_not_isCode {c : Char} {rest : Text} (h : (code.step c rest).1 = false) :
    isIdentChar c = false ∧ (code.step c rest).2 ≠ code := by
  constructor
  · rw [Bool.eq_false_iff]
    intro hc
    rw [step, read_of_isIdentChar isProper_code hc (isLineStart_of_isIdentChar hc)] at h
    cases h
  · rw [step, read] at h ⊢
    split at h
    · next hquote =>
      rw [if_pos hquote]
      simp
    · next hquote =>
      split at h
      · next hline =>
        rw [if_neg hquote, if_pos hline]
        simp
      · cases h

/-- No character of an identifier ends what is no code. -/
theorem IsProper.isIdentChar_of_next {mode : Mode} (h : mode.IsProper) (hmode : mode ≠ code) {c : Char}
    {rest : Text} (hnext : (mode.step c rest).2 = code) : isIdentChar c = false := by
  rw [Bool.eq_false_iff]
  intro hc
  rw [← read_eq_step hmode, read_of_isIdentChar h hc (ne_slash_of_isIdentChar hc)] at hnext
  cases mode with
  | code => exact hmode rfl
  | quoted quote => cases hnext
  | escaped quote => cases hnext
  | line => cases hnext

/-- A line that is no code goes on up to its newline or to the end. -/
theorem resume_line (t : Text) : line.resume t = [] ∨ ∃ rest, line.resume t = '\n' :: rest := by
  induction t with
  | nil => exact Or.inl rfl
  | cons c rest ih =>
    rw [resume_cons (by simp), step, read]
    by_cases hc : c = '\n'
    · subst hc
      exact Or.inr ⟨rest, rfl⟩
    · rw [if_neg hc, if_neg Bool.false_ne_true]
      exact ih

end Mode

/-- Part of a source: code, or what is stepped over as a whole. -/
inductive Stretch where
  | code (text : Text)
  | skipped (text : Text)
deriving DecidableEq, Repr

/-- The text of a stretch. -/
def Stretch.text : Stretch → Text
  | code text => text
  | skipped text => text

namespace Text

/-- Cuts behind the literal, the comment or the line of a multiline literal at the start of a text. -/
def skip? : Text → Option Cut
  | [] => none
  | c :: rest =>
    if (Mode.code.step c rest).1 then none
    else some ⟨c :: (Mode.code.step c rest).2.inside rest, (Mode.code.step c rest).2.resume rest⟩

/-- Cuts in front of the first literal, comment or line of a multiline literal. -/
def cutBehindCode : Text → Cut
  | [] => ⟨[], []⟩
  | c :: rest =>
    if (Mode.code.step c rest).1 then ⟨c :: (cutBehindCode rest).before, (cutBehindCode rest).after⟩
    else ⟨[], c :: rest⟩

/-- The stretch at the start of a text and the text behind it. -/
def firstStretch (t : Text) : Stretch × Text :=
  match t.skip? with
  | some cut => (.skipped cut.before, cut.after)
  | none => (.code t.cutBehindCode.before, t.cutBehindCode.after)

theorem whole_of_skip? {t : Text} {cut : Cut} (h : t.skip? = some cut) : cut.whole = t := by
  cases t with
  | nil => cases h
  | cons c rest =>
    rw [skip?] at h
    split at h
    · cases h
    · cases h
      exact congrArg (c :: ·) (Mode.inside_append_resume _ rest)

theorem whole_cutBehindCode (t : Text) : t.cutBehindCode.whole = t := by
  induction t with
  | nil => rfl
  | cons c rest ih =>
    rw [cutBehindCode]
    split
    · exact congrArg (c :: ·) ih
    · rfl

/-- The first stretch and the text behind it make up the text. -/
theorem text_firstStretch_append (t : Text) : t.firstStretch.1.text ++ t.firstStretch.2 = t := by
  rw [firstStretch]
  split
  · next hskip => exact whole_of_skip? hskip
  · exact t.whole_cutBehindCode

/-- The first stretch of a text has a character. -/
theorem length_firstStretch_lt (c : Char) (rest : Text) :
    (firstStretch (c :: rest)).2.length < (c :: rest).length := by
  have hne : (firstStretch (c :: rest)).1.text ≠ [] := by
    rw [firstStretch, skip?]
    by_cases hcode : (Mode.code.step c rest).1 = true
    · rw [if_pos hcode, cutBehindCode, if_pos hcode]
      exact List.cons_ne_nil _ _
    · rw [if_neg hcode]
      exact List.cons_ne_nil _ _
  have hlength := congrArg List.length (text_firstStretch_append (c :: rest))
  have hpos := List.length_pos_iff.2 hne
  rw [List.length_append] at hlength
  omega

/-- The stretches of a text, in order. -/
def stretches (t : Text) : List Stretch :=
  match t with
  | [] => []
  | c :: rest => (firstStretch (c :: rest)).1 :: stretches (firstStretch (c :: rest)).2
termination_by t.length
decreasing_by exact length_firstStretch_lt c rest

/-- The stretches of a text make it up. -/
theorem flatMap_stretches (t : Text) : t.stretches.flatMap Stretch.text = t := by
  fun_induction stretches t with
  | case1 => rfl
  | case2 c rest ih => rw [List.flatMap_cons, ih, text_firstStretch_append]

/-- The code in front of a region is code to its end for a renaming. -/
theorem behind_cutBehindCode (t : Text) : Mode.code.behind t.cutBehindCode.before = .code := by
  induction t with
  | nil => rfl
  | cons c rest ih =>
    rw [cutBehindCode]
    split
    · next hcode =>
      have hhead : isDoubled c (cutBehindCode rest).before = true → isDoubled c rest = true := by
        have hwhole := whole_cutBehindCode rest
        cases hbefore : (cutBehindCode rest).before with
        | nil => exact fun h => nomatch h
        | cons d more =>
          rw [Cut.whole, hbefore] at hwhole
          rw [← hwhole]
          exact id
      rw [Mode.step, Mode.read] at hcode
      split at hcode
      · cases hcode
      · next hquote =>
        split at hcode
        · cases hcode
        · next hline =>
          have hread : (Mode.code.read (· == '/') c (cutBehindCode rest).before).2 = .code := by
            rw [Mode.read, if_neg hquote, if_neg]
            intro hslash
            rw [Bool.and_eq_true] at hslash
            apply hline
            rw [isLineStart, hslash.1, hhead hslash.2]
            rfl
          rw [Mode.behind_cons, hread]
          exact ih
    · rfl

/-- A region does not start within a word. -/
theorem startsInWord_cutBehindCode (t : Text) : t.cutBehindCode.after.startsInWord = false := by
  induction t with
  | nil => rfl
  | cons c rest ih =>
    rw [cutBehindCode]
    split
    · exact ih
    · next hcode => exact (Mode.sign_of_not_isCode (Bool.eq_false_iff.2 hcode)).1

/-- No comment starts with the last character of the code in front of a region. -/
theorem getLast?_cutBehindCode (t : Text) (h : t.cutBehindCode.before.getLast? = some '/') :
    t.cutBehindCode.after.head? ≠ some '/' := by
  induction t with
  | nil => cases h
  | cons c rest ih =>
    rw [cutBehindCode] at h ⊢
    split at h
    · next hcode =>
      rw [if_pos hcode]
      have hwhole := whole_cutBehindCode rest
      cases hbefore : (cutBehindCode rest).before with
      | nil =>
        rw [hbefore] at h
        obtain rfl : c = '/' := Option.some.inj h
        rw [Cut.whole, hbefore, List.nil_append] at hwhole
        rw [hwhole]
        intro hslash
        simp [Mode.step, Mode.read, isQuote, isLineStart, isDoubled, hslash] at hcode
      | cons d more =>
        apply ih
        rw [hbefore] at h ⊢
        exact h
    · cases h

end Text

namespace ByOffset

open Text

/-- What is stepped over byte by byte is a region with its end. -/
theorem skipNonCode_eq_skip? {whole t : Text} {c : Char} (h : c :: t <:+ whole) :
    skipNonCode whole.bytes (whole.offsetOf (c :: t)) =
      pure ((skip? (c :: t)).map fun cut => whole.offsetOf cut.after) := by
  rw [skipNonCode_eq h, skip?]
  split <;> rfl

end ByOffset

open Text

namespace Stretch

/-- Whether a stretch is a line of a multiline literal. -/
def isMultilineLine : Stretch → Bool
  | code _ => false
  | skipped text => "\\\\".toList.isPrefixOf text

/-- Whether a stretch is a line of a multiline literal that a renaming leaves with its newline escaped. -/
def carries (stretch : Stretch) : Bool :=
  stretch.isMultilineLine &&
    match Mode.code.behind stretch.text with
    | .escaped _ => true
    | _ => false

/-- A stretch with a name replaced where it is code or a line of a multiline literal. -/
def renamed (old new : Text) (stretch : Stretch) : Text :=
  match stretch with
  | code text => rename text old new
  | skipped text => if stretch.isMultilineLine then rename text old new else text

end Stretch

section Rename

variable {old new : Text}

/-- What is no code is passed as it is. -/
theorem renameFrom_inside (hold : old.IsWord) {mode : Mode} (hmode : mode ≠ .code) (h : mode.IsProper)
    (inWord : Bool) (t : Text) :
    renameFrom old new mode inWord 0 t =
      mode.inside t ++ renameFrom old new .code false 0 (mode.resume t) := by
  induction t generalizing mode inWord with
  | nil => rw [Mode.inside_nil, Mode.resume_nil, renameFrom_nil, renameFrom_nil]; rfl
  | cons c rest ih =>
    have hread := Mode.read_eq_step hmode c rest
    rw [Mode.inside_cons hmode, Mode.resume_cons hmode]
    split
    · next hcode =>
      -- Only a newline is code here, and behind it either reads code.
      obtain rfl := Mode.eq_newline_of_isCode hmode hcode
      have hc : isIdentChar '\n' = false := by decide
      rw [renameFrom_sign hold hc, renameFrom_sign hold hc, hread, Mode.next_of_isCode hcode]
      rfl
    · have hpass : renameFrom old new mode inWord 0 (c :: rest) =
          c :: renameFrom old new (mode.step c rest).2 (isIdentChar c) 0 rest := by
        rw [renameFrom, hread]
        simp [hmode]
      rw [hpass, List.cons_append]
      by_cases hnext : (mode.step c rest).2 = .code
      · rw [hnext, Mode.inside_code, Mode.resume_code, h.isIdentChar_of_next hmode hnext,
          List.nil_append]
      · rw [ih hnext (h.read _ c rest)]

/-- Behind a newline that is not escaped renaming reads code. -/
theorem renameFrom_newline (hold : old.IsWord) {mode : Mode} (hmode : ∀ quote, mode ≠ .escaped quote)
    (t : Text) :
    renameFrom old new mode false 0 ('\n' :: t) = '\n' :: renameFrom old new .code false 0 t := by
  have hnext : (mode.read (· == '/') '\n' t).2 = .code := by
    cases mode with
    | code => rfl
    | quoted quote => rfl
    | escaped quote => exact absurd rfl (hmode quote)
    | line => rfl
  rw [renameFrom_sign hold (by decide), hnext]

/-- A literal or a comment stays as it is. -/
theorem rename_literal (hold : old.IsWord) {c : Char} {rest : Text} (hc : c ≠ '\\')
    (hcode : (Mode.code.step c rest).1 = false) :
    rename (c :: rest) old new =
      c :: (Mode.code.step c rest).2.inside rest ++
        rename ((Mode.code.step c rest).2.resume rest) old new := by
  obtain ⟨hsign, hnext⟩ := Mode.sign_of_not_isCode hcode
  have hread : Mode.code.read (· == '/') c rest = Mode.code.step c rest := by
    rw [Mode.step, Mode.read, Mode.read, isLineStart, beq_eq_false_iff_ne.2 hc, Bool.or_false]
  rw [rename_eq_renameFrom hold, rename_eq_renameFrom hold, renameFrom_sign hold hsign, hread,
    renameFrom_inside hold hnext (Mode.isProper_code.read _ c rest)]
  rfl

/-- The line of a multiline literal is renamed like code. If it does not leave its newline escaped, what
follows is code again. -/
theorem rename_multilineLine (hold : old.IsWord) (rest : Text)
    (hcarries : (Stretch.skipped ('\\' :: '\\' :: Mode.line.inside rest)).carries = false) :
    rename ('\\' :: '\\' :: rest) old new =
      rename ('\\' :: '\\' :: Mode.line.inside rest) old new ++
        rename (Mode.line.resume rest) old new := by
  have hmode : ∀ quote, Mode.code.behind ('\\' :: '\\' :: Mode.line.inside rest) ≠ .escaped quote := by
    intro quote hquote
    rw [Stretch.carries, Stretch.text, hquote] at hcarries
    cases hcarries
  have hwhole : '\\' :: '\\' :: rest =
      '\\' :: '\\' :: Mode.line.inside rest ++ Mode.line.resume rest :=
    congrArg (fun t => '\\' :: '\\' :: t) (Mode.inside_append_resume .line rest).symm
  rw [rename_eq_renameFrom hold, rename_eq_renameFrom hold, rename_eq_renameFrom hold, hwhole]
  rcases Mode.resume_line rest with hend | ⟨more, hmore⟩
  · rw [hend, renameFrom_nil, List.append_nil, List.append_nil]
  · rw [hmore, renameFrom_append hold Mode.isProper_code, renameFrom_newline hold hmode,
      renameFrom_newline hold (by simp)]
    · exact parted_of_startsInWord (show isIdentChar '\n' = false by decide)
    · simp

/-- The first stretch and the text behind it are renamed one after the other, unless the stretch is a line
of a multiline literal that leaves its newline escaped. -/
theorem rename_firstStretch (hold : old.IsWord) (t : Text)
    (hcarries : t.firstStretch.1.carries = false) :
    rename t old new = t.firstStretch.1.renamed old new ++ rename t.firstStretch.2 old new := by
  rw [firstStretch] at hcarries ⊢
  cases hskip : t.skip? with
  | none =>
    have hwhole := t.whole_cutBehindCode
    conv_lhs => rw [← hwhole, Cut.whole]
    rw [rename_eq_renameFrom hold,
      renameFrom_append hold Mode.isProper_code
        (parted_of_startsInWord t.startsInWord_cutBehindCode) t.getLast?_cutBehindCode,
      t.behind_cutBehindCode, ← rename_eq_renameFrom hold, ← rename_eq_renameFrom hold]
    rfl
  | some cut =>
    rw [hskip] at hcarries
    dsimp only at hcarries ⊢
    cases t with
    | nil => cases hskip
    | cons c rest =>
      rw [skip?] at hskip
      cases hcode : (Mode.code.step c rest).1 with
      | true => simp [hcode] at hskip
      | false =>
        rw [hcode, if_neg Bool.false_ne_true] at hskip
        obtain rfl := Option.some.inj hskip
        by_cases hc : c = '\\'
        · subst hc
          obtain ⟨more, rfl⟩ : ∃ more, rest = '\\' :: more := by
            cases hhead : rest.head? with
            | none => simp [Mode.step, Mode.read, isQuote, isDoubled, hhead] at hcode
            | some d =>
              obtain ⟨more, rfl⟩ := List.head?_eq_some_iff.1 hhead
              by_cases hd : d = '\\'
              · exact ⟨more, hd ▸ rfl⟩
              · simp [Mode.step, Mode.read, isQuote, isLineStart, isDoubled, hd] at hcode
          exact rename_multilineLine hold more hcarries
        · rw [rename_literal hold hc hcode, Stretch.renamed, if_neg]
          simp [Stretch.isMultilineLine, Ne.symm hc]

/-- A source is renamed stretch by stretch, as far as no line of a multiline literal leaves its newline
escaped. Literals and comments stay as they are; names are replaced in the code, and in the lines of
multiline literals as in code. -/
theorem rename_stretches (hold : isIdentifier old = true) {t : Text} {front back : List Stretch}
    (h : t.stretches = front ++ back) (hcarries : ∀ stretch ∈ front, stretch.carries = false) :
    rename t old new =
      front.flatMap (Stretch.renamed old new) ++ rename (back.flatMap Stretch.text) old new := by
  induction front generalizing t with
  | nil => rw [← t.flatMap_stretches, h]; rfl
  | cons first front ih =>
    cases t with
    | nil =>
      rw [stretches] at h
      cases h
    | cons c rest =>
      rw [stretches, List.cons_append] at h
      obtain ⟨rfl, hrest⟩ := List.cons.inj h
      rw [rename_firstStretch (isWord_of_isIdentifier hold) _ (hcarries _ List.mem_cons_self),
        ih hrest fun stretch hmem => hcarries stretch (List.mem_cons_of_mem _ hmem),
        List.flatMap_cons, List.append_assoc]

/-- A comment, a literal and a line of a multiline literal, each behind code. -/
def mixedSource : Text := "A // A\n\"A\" = A;\n\\\\A\nA".toList

/-- Its stretches. -/
def mixedStretches : List Stretch :=
  [.code "A ".toList, .skipped "// A".toList, .code "\n".toList, .skipped "\"A\"".toList,
    .code " = A;\n".toList, .skipped "\\\\A".toList, .code "\nA".toList]

/-- The comment and the literal stay as they are, the line of the multiline literal does not. -/
theorem rename_stretches_mixedSource :
    mixedSource.stretches = mixedStretches ∧
      rename mixedSource "A".toList "B".toList = "B // A\n\"A\" = B;\n\\\\B\nB".toList := by
  have hstretches : mixedSource.stretches = mixedStretches ++ [] := by decide +kernel
  have hold : isIdentifier "A".toList = true := by decide
  refine ⟨hstretches, ?_⟩
  rw [rename_stretches hold hstretches (by decide)]
  decide

/-- A line of a multiline literal is not left as it is, nor is a literal behind such a line that leaves its
newline escaped. -/
theorem skipped_renamed :
    (stretches "\\\\A".toList = [.skipped "\\\\A".toList] ∧
        rename "\\\\A".toList "A".toList "B".toList = "\\\\B".toList) ∧
      stretches "\\\\\"\\\n\"A\"".toList =
          [.skipped "\\\\\"\\".toList, .code "\n".toList, .skipped "\"A\"".toList] ∧
        rename "\\\\\"\\\n\"A\"".toList "A".toList "B".toList =
          "\\\\\"\\\n\"B\"".toList := by
  refine ⟨⟨?_, by decide⟩, ?_, by decide⟩
  · decide +kernel
  · decide +kernel

end Rename

end ClassFlattening
