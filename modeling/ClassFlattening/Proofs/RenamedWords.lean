import ClassFlattening.Proofs.ByOffset.Retargeting

/-!
# Renaming word by word

A text is a run of signs and words, each word as long as it goes. Renaming passes a sign as it is and
takes a word as a whole: in code the old name becomes the new one, and every other word stays. What the
renaming reads between two words is told by the mode behind the text in front, so texts that do not meet
within a word, nor between two slashes, are renamed one after the other.
-/

namespace ClassFlattening

namespace Text

/-- A text is a word if it has characters of identifiers and no others. -/
def IsWord (t : Text) : Prop := t ≠ [] ∧ ∀ c ∈ t, isIdentChar c = true

/-- No word goes on from one text to the next. -/
def Parted (s t : Text) : Prop := s.endsInWord = true → t.startsInWord = false

theorem isWord_of_isIdentifier {t : Text} (h : isIdentifier t = true) : t.IsWord :=
  ⟨ne_nil_of_isIdentifier h, fun _ hc => isIdentChar_of_mem h hc⟩

theorem IsWord.startsInWord_append {w : Text} (h : w.IsWord) (t : Text) :
    (w ++ t).startsInWord = true := by
  obtain ⟨c, w, rfl⟩ := List.exists_cons_of_ne_nil h.1
  exact h.2 c List.mem_cons_self

@[simp] theorem startsInWord_nil : startsInWord [] = false := rfl

theorem startsInWord_cons (c : Char) (t : Text) : startsInWord (c :: t) = isIdentChar c := rfl

theorem startsInWord_append {s t : Text} (hs : s.startsInWord = false) (ht : t.startsInWord = false) :
    (s ++ t).startsInWord = false := by
  cases s with
  | nil => exact ht
  | cons c s => exact hs

/-- Where a text starts within no word no word goes on into it. -/
theorem parted_of_startsInWord {s t : Text} (h : t.startsInWord = false) : Parted s t := fun _ => h

/-- No word goes on behind a sign. -/
theorem parted_concat {c : Char} (hc : isIdentChar c = false) (s t : Text) : Parted (s ++ [c]) t := by
  intro hend
  rw [endsInWord_append] at hend
  change isIdentChar c = true at hend
  rw [hc] at hend
  cases hend

theorem parted_nil (t : Text) : Parted [] t := fun h => nomatch h

/-- Behind a sign everything stays parted. -/
theorem Parted.of_cons {c : Char} {s t : Text} (h : Parted (c :: s) t) : Parted s t := by
  cases s with
  | nil => exact parted_nil t
  | cons d s => exact h

/-- Behind a word with something else behind it everything stays parted. -/
theorem Parted.of_word {w s t : Text} (hw : w.IsWord) (hs : s.startsInWord = false)
    (h : Parted (w ++ s) t) : Parted s t ∧ (s ++ t).startsInWord = false := by
  cases s with
  | nil =>
    refine ⟨parted_nil t, h ?_⟩
    rw [List.append_nil]
    exact endsInWord_append_word hw.2 hw.1 []
  | cons c s =>
    refine ⟨fun hend => h ?_, hs⟩
    rw [endsInWord_append]
    rw [endsInWord, List.getLast?_cons] at hend
    rw [List.getLast?_cons]
    exact hend

/-- No word goes on behind the word at the start of a text. -/
theorem startsInWord_afterLeadingWord (t : Text) : t.afterLeadingWord.startsInWord = false := by
  have hnot := List.head?_dropWhile_not isIdentChar t
  rw [afterLeadingWord, startsInWord]
  cases hhead : (List.dropWhile isIdentChar t).head? with
  | none => rfl
  | some d => simpa [hhead] using hnot

/-- What holds of the empty text, and is passed on by signs and by words that something else follows,
holds of every text. -/
@[elab_as_elim]
theorem wordInduction {motive : Text → Prop} (nil : motive [])
    (sign : ∀ c t, isIdentChar c = false → motive t → motive (c :: t))
    (word : ∀ w t, IsWord w → t.startsInWord = false → motive t → motive (w ++ t)) (t : Text) :
    motive t := by
  induction hlength : t.length using Nat.strongRecOn generalizing t with
  | ind n ih =>
    subst hlength
    cases t with
    | nil => exact nil
    | cons c t =>
      cases hc : isIdentChar c with
      | false => exact sign c t hc (ih t.length (Nat.lt_succ_self _) t rfl)
      | true =>
        have hne : leadingWord (c :: t) ≠ [] := by
          rw [leadingWord, List.takeWhile_cons_of_pos hc]
          exact List.cons_ne_nil _ _
        rw [← leadingWord_append_afterLeadingWord (c :: t)]
        have hword : IsWord (leadingWord (c :: t)) :=
          ⟨hne, fun d hd => List.all_eq_true.1 List.all_takeWhile d hd⟩
        exact word _ _ hword (startsInWord_afterLeadingWord _)
          (ih _ (length_afterLeadingWord_lt hne) _ rfl)

end Text

namespace Mode

/-- The quote of a literal is no character of an identifier. -/
def IsProper : Mode → Prop
  | quoted quote | escaped quote => isIdentChar quote = false
  | _ => True

theorem isProper_code : code.IsProper := trivial

/-- The mode behind a word. -/
def behindWord : Mode → Mode
  | escaped quote => quoted quote
  | mode => mode

/-- The mode in which a renaming is behind a text. -/
def behind : Mode → Text → Mode
  | mode, [] => mode
  | mode, c :: rest => behind (mode.read (· == '/') c rest).2 rest

@[simp] theorem behind_nil (mode : Mode) : mode.behind [] = mode := by
  cases mode <;> rfl

theorem behind_cons (mode : Mode) (c : Char) (rest : Text) :
    mode.behind (c :: rest) = (mode.read (· == '/') c rest).2.behind rest := by
  cases mode <;> rfl

@[simp] theorem behindWord_behindWord (mode : Mode) : mode.behindWord.behindWord = mode.behindWord := by
  cases mode <;> rfl

/-- What follows a character counts only where it may be doubled. -/
theorem read_congr {mode : Mode} {lineStart : Char → Bool} {c : Char} {s t : Text}
    (h : (lineStart c && isDoubled c s) = (lineStart c && isDoubled c t)) :
    mode.read lineStart c s = mode.read lineStart c t := by
  cases mode with
  | code => simp only [Mode.read, h]
  | quoted quote => rfl
  | escaped quote => rfl
  | line => rfl

theorem isQuote_of_isIdentChar {c : Char} (hc : isIdentChar c = true) : isQuote c = false := by
  rw [Bool.eq_false_iff]
  intro hquote
  rw [isQuote, Bool.or_eq_true, beq_iff_eq, beq_iff_eq] at hquote
  rcases hquote with rfl | rfl
  · exact absurd hc (by decide)
  · exact absurd hc (by decide)

/-- Reading a character keeps a mode proper. -/
theorem IsProper.read {mode : Mode} (h : mode.IsProper) (lineStart : Char → Bool) (c : Char)
    (rest : Text) : (mode.read lineStart c rest).2.IsProper := by
  cases mode with
  | code =>
    rw [Mode.read]
    split
    · next hquote =>
      cases hc : isIdentChar c with
      | false => exact hc
      | true =>
        rw [isQuote_of_isIdentChar hc] at hquote
        cases hquote
    · split
      · exact trivial
      · exact trivial
  | quoted quote =>
    rw [Mode.read]
    split
    · exact h
    · split
      · exact trivial
      · split
        · exact trivial
        · exact h
  | escaped quote => exact h
  | line =>
    rw [Mode.read]
    split
    · exact trivial
    · exact trivial

/-- Behind a text that is read from a proper mode the mode is proper. -/
theorem IsProper.behind {mode : Mode} (h : mode.IsProper) (t : Text) : (mode.behind t).IsProper := by
  induction t generalizing mode with
  | nil =>
    rw [behind_nil]
    exact h
  | cons c t ih =>
    rw [behind_cons]
    exact ih (h.read _ c t)

/-- A character of an identifier is code just in code, and is passed like any other. -/
theorem read_of_isIdentChar {mode : Mode} (h : mode.IsProper) {lineStart : Char → Bool} {c : Char}
    (hc : isIdentChar c = true) (hline : lineStart c = false) (rest : Text) :
    mode.read lineStart c rest = (decide (mode = code), mode.behindWord) := by
  have hne {d : Char} (hd : isIdentChar d = false) : c ≠ d := by
    rintro rfl
    rw [hc] at hd
    cases hd
  have hnewline : c ≠ '\n' := hne (by decide)
  have hescape : c ≠ '\\' := hne (by decide)
  cases mode with
  | code => simp [Mode.read, isQuote_of_isIdentChar hc, hline, behindWord]
  | quoted quote => simp [Mode.read, hnewline, hescape, hne h, behindWord]
  | escaped quote => simp [Mode.read, behindWord]
  | line => simp [Mode.read, hnewline, behindWord]

theorem IsProper.behindWord {mode : Mode} (h : mode.IsProper) : mode.behindWord.IsProper := by
  cases mode <;> exact h

/-- A character of an identifier starts no line that is no code. -/
theorem isLineStart_of_isIdentChar {c : Char} (hc : isIdentChar c = true) : isLineStart c = false := by
  rw [Bool.eq_false_iff, isLineStart]
  intro hline
  rw [Bool.or_eq_true, beq_iff_eq, beq_iff_eq] at hline
  rcases hline with rfl | rfl
  · exact absurd hc (by decide)
  · exact absurd hc (by decide)

/-- A character of an identifier starts no comment. -/
theorem ne_slash_of_isIdentChar {c : Char} (hc : isIdentChar c = true) : (c == '/') = false := by
  rw [beq_eq_false_iff_ne]
  rintro rfl
  exact absurd hc (by decide)

/-- The mode behind characters of identifiers that no other is in front of. -/
theorem behind_word {mode : Mode} (h : mode.IsProper) {w : Text} (hw : w.IsWord) (t : Text) :
    mode.behind (w ++ t) = mode.behindWord.behind t := by
  obtain ⟨hne, hchars⟩ := hw
  induction w generalizing mode with
  | nil => exact absurd rfl hne
  | cons c w ih =>
    have hc := hchars c List.mem_cons_self
    rw [List.cons_append, behind_cons, read_of_isIdentChar h hc (ne_slash_of_isIdentChar hc)]
    cases w with
    | nil => rfl
    | cons d w =>
      rw [ih h.behindWord (List.cons_ne_nil d w) fun e he => hchars e (List.mem_cons_of_mem c he),
        behindWord_behindWord]

end Mode

open Text

section RenameFrom

variable {old new : Text} {mode : Mode} {inWord : Bool} {c : Char} {t : Text}

@[simp] theorem renameFrom_nil (old new : Text) (mode : Mode) (inWord : Bool) (skip : Nat) :
    renameFrom old new mode inWord skip [] = [] := by
  cases skip <;> rfl

/-- A word does not stand where a sign does. -/
theorem standsAt_sign (hold : old.IsWord) (hc : isIdentChar c = false) (t : Text) :
    standsAt old (c :: t) = false := by
  obtain ⟨d, rest, rfl⟩ := List.exists_cons_of_ne_nil hold.1
  have hne : d ≠ c := by
    rintro rfl
    rw [hold.2 d List.mem_cons_self] at hc
    cases hc
  simp [standsAt, hne]

/-- A word stands where it is the word of the text. -/
theorem standsAt_word (hold : old.IsWord) {w : Text} (hw : w.IsWord) (ht : t.startsInWord = false) :
    standsAt old (w ++ t) = decide (w = old) := by
  by_cases heq : w = old
  · subst heq
    rw [ByOffset.standsAt_append, ht]
    simp
  · rw [decide_eq_false heq, Bool.eq_false_iff]
    intro hstands
    rw [standsAt, Bool.and_eq_true, List.isPrefixOf_iff_prefix, Bool.not_eq_true'] at hstands
    obtain ⟨⟨rest, hrest⟩, hbehind⟩ := hstands
    rw [← hrest, List.drop_left] at hbehind
    have hlead := (leadingWord_beq hold.2 rest).trans (congrArg (!·) hbehind)
    have hlead' := (leadingWord_beq hw.2 t).trans (congrArg (!·) ht)
    rw [hrest, Bool.not_false, beq_iff_eq] at hlead
    rw [Bool.not_false, beq_iff_eq] at hlead'
    exact heq (hlead'.symm.trans hlead)

/-- A sign is passed as it is. -/
theorem renameFrom_sign (hold : old.IsWord) (hc : isIdentChar c = false) :
    renameFrom old new mode inWord 0 (c :: t) =
      c :: renameFrom old new (mode.read (· == '/') c t).2 false 0 t := by
  rw [renameFrom]
  dsimp only
  rw [standsAt_sign hold hc, Bool.and_false, if_neg Bool.false_ne_true, hc]

/-- Where a text does not start within a word it does not matter what is in front of it. -/
theorem renameFrom_congr (hold : old.IsWord) (ht : t.startsInWord = false) :
    renameFrom old new mode inWord 0 t = renameFrom old new mode false 0 t := by
  cases t with
  | nil => rw [renameFrom_nil, renameFrom_nil]
  | cons c t => rw [renameFrom_sign hold ht, renameFrom_sign hold ht]

/-- The rest of a word is passed as it is. -/
theorem renameFrom_rest_of_word (hold : old.IsWord) (h : mode.IsProper) {w : Text}
    (hw : ∀ c ∈ w, isIdentChar c = true) (ht : t.startsInWord = false) :
    renameFrom old new mode.behindWord true 0 (w ++ t) =
      w ++ renameFrom old new mode.behindWord false 0 t := by
  induction w with
  | nil => exact renameFrom_congr hold ht
  | cons c w ih =>
    have hc := hw c List.mem_cons_self
    have hrest := ih fun d hd => hw d (List.mem_cons_of_mem c hd)
    rw [List.cons_append, renameFrom,
      Mode.read_of_isIdentChar h.behindWord hc (Mode.ne_slash_of_isIdentChar hc)]
    simp only [Bool.not_true, Bool.and_false, Bool.false_and, Bool.false_eq_true, if_false, hc,
      Mode.behindWord_behindWord, hrest, List.cons_append]

/-- A word is passed as a whole. In code the old name becomes the new one. -/
theorem renameFrom_word (hold : old.IsWord) (h : mode.IsProper) {w : Text} (hw : w.IsWord)
    (ht : t.startsInWord = false) :
    renameFrom old new mode false 0 (w ++ t) =
      (if mode = .code ∧ w = old then new else w) ++ renameFrom old new mode.behindWord false 0 t := by
  obtain ⟨c, rest, rfl⟩ := List.exists_cons_of_ne_nil hw.1
  have hc := hw.2 c List.mem_cons_self
  have hrest : ∀ d ∈ rest, isIdentChar d = true := fun d hd => hw.2 d (List.mem_cons_of_mem c hd)
  have hstands := standsAt_word hold hw ht
  rw [List.cons_append] at hstands ⊢
  rw [renameFrom, Mode.read_of_isIdentChar h hc (Mode.ne_slash_of_isIdentChar hc), hstands]
  by_cases hreplace : mode = .code ∧ c :: rest = old
  · rw [if_pos hreplace]
    obtain ⟨rfl, rfl⟩ := hreplace
    simp only [decide_true, Bool.and_self, Bool.not_false, if_true, List.length_cons,
      Nat.add_sub_cancel]
    rw [renameFrom_skip, renameFrom_congr hold ht]
    rfl
  · have hkeep : (decide (mode = .code) && decide (mode = .code) && !false &&
        decide (c :: rest = old)) = false := by
      simpa [Decidable.not_and_iff_or_not] using hreplace
    dsimp only
    rw [hkeep, if_neg Bool.false_ne_true, if_neg hreplace, hc, renameFrom_rest_of_word hold h hrest ht]
    rfl

/-- Texts that meet neither within a word nor between two slashes are renamed one after the other. -/
theorem renameFrom_append (hold : old.IsWord) (h : mode.IsProper) {s t : Text} (hparted : Parted s t)
    (hslash : s.getLast? = some '/' → t.head? ≠ some '/') :
    renameFrom old new mode false 0 (s ++ t) =
      renameFrom old new mode false 0 s ++ renameFrom old new (mode.behind s) false 0 t := by
  induction s using wordInduction generalizing mode with
  | nil => rw [renameFrom_nil, Mode.behind_nil]; rfl
  | sign c s hc ih =>
    have hread : mode.read (· == '/') c (s ++ t) = mode.read (· == '/') c s := by
      apply Mode.read_congr
      cases s with
      | cons d s => rfl
      | nil =>
        by_cases hc : c = '/'
        · subst hc
          simpa [isDoubled] using hslash rfl
        · simp only [beq_eq_false_iff_ne.2 hc, Bool.false_and]
    have hslash' : s.getLast? = some '/' → t.head? ≠ some '/' := by
      intro hlast
      apply hslash
      rw [List.getLast?_cons, hlast]
      rfl
    rw [List.cons_append, renameFrom_sign hold hc, renameFrom_sign hold hc, hread,
      ih (h.read _ c s) hparted.of_cons hslash', Mode.behind_cons]
    rfl
  | word w s hw hs ih =>
    obtain ⟨hparted', hst⟩ := hparted.of_word hw hs
    have hslash' : s.getLast? = some '/' → t.head? ≠ some '/' := by
      intro hlast
      apply hslash
      rw [List.getLast?_append, hlast]
      rfl
    rw [List.append_assoc, renameFrom_word hold h hw hst, renameFrom_word hold h hw hs,
      ih h.behindWord hparted' hslash', Mode.behind_word h hw, List.append_assoc]

end RenameFrom

/-- Renaming a word starts in code at the start of the text. -/
theorem rename_eq_renameFrom {old : Text} (hold : old.IsWord) (t new : Text) :
    rename t old new = renameFrom old new .code false 0 t := by
  rw [rename, if_neg (by simpa using hold.1)]

end ClassFlattening
