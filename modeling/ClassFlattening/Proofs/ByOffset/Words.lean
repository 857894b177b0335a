import ClassFlattening.Proofs.ByOffset.Steps
import ClassFlattening.Proofs.SitePieces
import ClassFlattening.Proofs.Words

/-!
# Words by their offsets

A word is searched for by looking at every occurrence of its characters: one that goes on on either side
is no word, and the search continues behind it. No word is missed by that, since an occurrence that
starts within another one has a word character in front of it. The last word is found in the same way
from the end of the text.
-/

namespace ClassFlattening

namespace Text

/-- The offset of the last occurrence of a pattern, which is the first one from the end. -/
def lastTextOffset? (t pattern : Text) : Option Nat :=
  (cutAtText? t.reverse pattern.reverse).map fun cut => size (cut.after.drop pattern.length)

/-- Whether the text behind a text starts within a word. -/
def endsInWord (t : Text) : Bool := t.getLast?.any isIdentChar

/-- Whether a text starts within a word. -/
def startsInWord (t : Text) : Bool := t.head?.any isIdentChar

theorem endsInWord_append (s t : Text) :
    (s ++ t).endsInWord = (t.getLast?.map isIdentChar).getD s.endsInWord := by
  rw [endsInWord, List.getLast?_append, endsInWord]
  cases t.getLast? <;> rfl

theorem endsInWord_append_word {word : Text} (hword : ∀ c ∈ word, isIdentChar c = true)
    (hne : word ≠ []) (s : Text) : (s ++ word).endsInWord = true := by
  rw [endsInWord_append, List.getLast?_eq_some_getLast hne]
  exact hword _ (List.getLast_mem hne)

theorem endsInWord_reverse (t : Text) : endsInWord t.reverse = t.startsInWord := by
  rw [endsInWord, startsInWord, List.getLast?_reverse]

/-- The text from a word on, given whether the text starts within another word. -/
def fromWord? (word : Text) (inWord : Bool) (t : Text) : Option Text :=
  (cutWhere (fun inWord c rest =>
    if !inWord && leadingWord (c :: rest) == word then .stop else .pass (isIdentChar c))
    inWord t).map Cut.after

section FromWord

variable {word t rest : Text} {inWord : Bool}

/-- One step of the search for a word. -/
theorem fromWord?_cons (word : Text) (inWord : Bool) (c : Char) (rest : Text) :
    fromWord? word inWord (c :: rest) =
      if !inWord && leadingWord (c :: rest) == word then some (c :: rest)
      else fromWord? word (isIdentChar c) rest := by
  rw [fromWord?, cutWhere_cons]
  split
  · next h =>
    split at h
    · next hstop => rw [if_pos hstop]; rfl
    · cases h
  · next h => split at h <;> cases h
  · next next h =>
    split at h
    · cases h
    · next hpass =>
      cases h
      rw [if_neg hpass, Option.map_map]
      rfl

/-- The search passes the rest of a word. -/
theorem fromWord?_append {other : Text} (hother : ∀ c ∈ other, isIdentChar c = true) :
    fromWord? word true (other ++ t) = fromWord? word true t := by
  induction other with
  | nil => rfl
  | cons c other ih =>
    rw [List.cons_append, fromWord?_cons, hother c List.mem_cons_self,
      ih fun d hd => hother d (List.mem_cons_of_mem c hd)]
    rfl

/-- A text starts with a word just when it starts with its characters and does not go on with them. -/
theorem leadingWord_beq (hword : ∀ c ∈ word, isIdentChar c = true) (rest : Text) :
    ((word ++ rest).leadingWord == word) = !rest.startsInWord := by
  have hlead : (word ++ rest).leadingWord = word ++ rest.leadingWord :=
    List.takeWhile_append_of_pos hword
  rw [hlead, startsInWord]
  cases rest with
  | nil => simp [leadingWord]
  | cons c rest =>
    rw [List.head?_cons, Option.any_some]
    cases hc : isIdentChar c with
    | true => simp [leadingWord, hc]
    | false => simp [leadingWord, hc]

/-- A text that starts with a word starts with its characters. -/
theorem isPrefixOf_of_leadingWord (h : (t.leadingWord == word) = true) : word.isPrefixOf t = true := by
  rw [← beq_iff_eq.1 h, List.isPrefixOf_iff_prefix]
  exact List.takeWhile_prefix isIdentChar

/-- A text that does not start with the characters of a word does not start with the word. -/
theorem leadingWord_beq_of_isPrefixOf (h : word.isPrefixOf t = false) :
    (t.leadingWord == word) = false := by
  rw [Bool.eq_false_iff]
  intro hlead
  rw [isPrefixOf_of_leadingWord hlead] at h
  cases h

/-- Where the characters of a word do not occur the word is not found. -/
theorem fromWord?_of_none (h : t.cutAtText? word = none) : fromWord? word inWord t = none := by
  induction t generalizing inWord with
  | nil => rfl
  | cons c rest ih =>
    rw [cutAtText?, cutWhere_cons, matchesAt_eq_isPrefixOf] at h
    cases hmatch : word.isPrefixOf (c :: rest) with
    | true => simp [hmatch] at h
    | false =>
      simp only [hmatch, Bool.false_eq_true, if_false, Option.map_eq_none_iff] at h
      rw [fromWord?_cons, ih h, leadingWord_beq_of_isPrefixOf hmatch, Bool.and_false]
      rfl

/-- The first occurrence of its characters is the word unless a word goes on from in front of it or goes
on behind it; then the search continues behind it. -/
theorem fromWord?_of_some {cut : Cut} (hword : ∀ c ∈ word, isIdentChar c = true) (hne : word ≠ [])
    (h : t.cutAtText? word = some cut) (hafter : cut.after = word ++ rest) :
    fromWord? word inWord t =
      if !(cut.before.getLast?.map isIdentChar).getD inWord && !rest.startsInWord then some cut.after
      else fromWord? word true rest := by
  induction t generalizing inWord cut with
  | nil => cases h
  | cons c more ih =>
    rw [cutAtText?, cutWhere_cons, matchesAt_eq_isPrefixOf] at h
    rw [fromWord?_cons]
    cases hmatch : word.isPrefixOf (c :: more) with
    | true =>
      simp only [hmatch, if_true, Option.some.injEq] at h
      subst h
      have hlead := leadingWord_beq hword rest
      have hcons : c :: more = word ++ rest := hafter
      rw [hcons, hlead]
      obtain ⟨d, other, hother⟩ := List.exists_cons_of_ne_nil hne
      rw [hother, List.cons_append] at hcons
      obtain ⟨hhead, htail⟩ := List.cons.inj hcons
      have hmem := fun e he => hword e (hother ▸ List.mem_cons_of_mem d (a := e) he)
      rw [hhead, hword d (hother ▸ List.mem_cons_self), htail, fromWord?_append hmem]
      rfl
    | false =>
      simp only [hmatch, Bool.false_eq_true, if_false, Option.map_eq_some_iff] at h
      obtain ⟨inner, hinner, rfl⟩ := h
      rw [leadingWord_beq_of_isPrefixOf hmatch, Bool.and_false, if_neg Bool.false_ne_true, ih hinner hafter]
      dsimp only
      rw [List.getLast?_cons]
      cases inner.before.getLast? <;> rfl

end FromWord

end Text

namespace ByOffset

open Text

/-- Whether what stands between two offsets is a word, given the first offset and the size. -/
def isWholeWord (t : Text) (start size : Nat) : Steps Bool := do
  let before ← sliceTo t start
  let after ← sliceFrom t (start + size)
  return !before.endsInWord && !after.startsInWord

/-- The offset of the first word that is the keyword, from an offset on. -/
def Source.findKeywordFrom (t : Source) (keyword : Text) (start : Nat) : Steps (Option Nat) := do
  let rest ← sliceFrom t start
  match rest.textOffset? keyword with
  | none => return none
  | some index =>
    if ← isWholeWord t (start + index) keyword.size then return some (start + index)
    else t |>.findKeywordFrom keyword (start + index + keyword.size)
partial_fixpoint

/-- The offset of the first word that is the keyword. -/
def findKeyword (t keyword : Text) : Steps (Option Nat) := Source.findKeywordFrom t keyword 0

/-- The offset of the last word that is the keyword, in front of an offset. -/
def Source.findLastKeywordUpTo (t : Source) (keyword : Text) (stop : Nat) : Steps (Option Nat) := do
  let front ← sliceTo t stop
  match front.lastTextOffset? keyword with
  | none => return none
  | some start =>
    if ← isWholeWord t start keyword.size then return some start
    else t |>.findLastKeywordUpTo keyword start
partial_fixpoint

/-- The offset of the last word that is the keyword. -/
def findLastKeyword (t keyword : Text) : Steps (Option Nat) := Source.findLastKeywordUpTo t keyword t.size

/-- Whether a text starts with the keyword. -/
def startsWithKeyword (t keyword : Text) : Bool :=
  match t.dropLead? keyword with
  | some rest => !rest.startsInWord
  | none => false

/-- The keywords that may stand at the start of a text. -/
abbrev Keywords := List Text

/-- The text without the keywords, and the blanks behind them, at its start. -/
def Keywords.strip (keywords : Keywords) (t : Text) : Steps Text :=
  match keywords.find? fun keyword => startsWithKeyword t keyword with
  | some keyword => do
    let rest ← sliceFrom t keyword.size
    keywords |>.strip rest.trimStart
  | none => return t
partial_fixpoint

/-- The text without the qualifying words, and the blanks, at its start. -/
def stripQualifiers (qualifiers : List Text) (t : Text) : Steps Text :=
  Keywords.strip qualifiers t.trimStart

/-- Whether a text starts with the keyword and then a block or its title. -/
def isBlockStatement (t keyword : Text) : Steps Bool :=
  if startsWithKeyword t keyword then do
    let rest ← sliceFrom t keyword.size
    let rest := rest.trimStart
    return rest.head? == some '{' || rest.head? == some '"'
  else return false

section Search

variable {front t whole keyword : Text}

theorem isWholeWord_append (front word rest : Text) :
    isWholeWord (front ++ (word ++ rest)) front.size word.size =
      pure (!front.endsInWord && !rest.startsInWord) := by
  have hbehind := sliceFrom_append (front ++ word) rest
  rw [List.append_assoc, size_append] at hbehind
  rw [isWholeWord, sliceTo_append, pure_bind, hbehind, pure_bind]

/-- The search for a keyword makes no misstep. -/
theorem findKeywordFrom_eq (hword : ∀ c ∈ keyword, isIdentChar c = true) (hne : keyword ≠ [])
    (front t : Text) :
    Source.findKeywordFrom (front ++ t) keyword front.size =
      pure ((fromWord? keyword front.endsInWord t).map (offsetOf (front ++ t))) := by
  induction hlength : t.length using Nat.strongRecOn generalizing front t with
  | ind n ih =>
    subst hlength
    rw [Source.findKeywordFrom, sliceFrom_append, pure_bind, textOffset?]
    cases hcut : t.cutAtText? keyword with
    | none =>
      rw [fromWord?_of_none hcut]
      rfl
    | some cut =>
      obtain ⟨rest, hafter⟩ := exists_of_cutAtText? hcut
      have hwhole := whole_of_cutWhere _ hcut
      rw [Cut.whole, hafter] at hwhole
      rw [fromWord?_of_some hword hne hcut hafter, hafter]
      subst hwhole
      have hlength : rest.length < (cut.before ++ (keyword ++ rest)).length := by
        have hpos := List.length_pos_iff.2 hne
        rw [List.length_append, List.length_append]
        omega
      have hrest := ih rest.length hlength (front ++ cut.before ++ keyword) rest rfl
      rw [endsInWord_append_word hword hne, size_append, size_append] at hrest
      have hat := isWholeWord_append (front ++ cut.before) keyword rest
      rw [endsInWord_append, size_append] at hat
      simp only [List.append_assoc] at hrest hat
      dsimp only [Option.map_some]
      rw [hat, pure_bind, hrest]
      split
      · have hoffset := offsetOf_append (front ++ cut.before) (keyword ++ rest)
        rw [List.append_assoc, size_append] at hoffset
        rw [Option.map_some, hoffset]
      · rfl

theorem findKeyword_eq (hword : ∀ c ∈ keyword, isIdentChar c = true) (hne : keyword ≠ [])
    (t : Text) :
    findKeyword t keyword = pure ((t.cutAtWord? keyword).map fun cut => cut.before.size) := by
  have hoffset : (t.cutAtWord? keyword).map (fun cut => cut.before.size) =
      (fromWord? keyword false t).map t.offsetOf := by
    rw [fromWord?, Option.map_map, ← cutAtWord?]
    cases hcut : t.cutAtWord? keyword with
    | none => rfl
    | some cut => exact congrArg some (offsetOf_after (whole_of_cutWhere _ hcut)).symm
  rw [hoffset]
  exact findKeywordFrom_eq hword hne [] t

/-- The search for the last keyword makes no misstep. -/
theorem findLastKeywordUpTo_eq (hword : ∀ c ∈ keyword, isIdentChar c = true) (hne : keyword ≠ [])
    (t tail : Text) :
    Source.findLastKeywordUpTo (t ++ tail) keyword t.size =
      pure ((fromWord? keyword.reverse tail.startsInWord t.reverse).map
        fun after => size (after.drop keyword.length)) := by
  have hword' : ∀ c ∈ keyword.reverse, isIdentChar c = true :=
    fun c hc => hword c (List.mem_reverse.1 hc)
  have hne' : keyword.reverse ≠ [] := fun h => hne (List.reverse_eq_nil_iff.1 h)
  induction hlength : t.length using Nat.strongRecOn generalizing t tail with
  | ind n ih =>
    subst hlength
    rw [Source.findLastKeywordUpTo, sliceTo_append, pure_bind, lastTextOffset?]
    cases hcut : cutAtText? t.reverse keyword.reverse with
    | none =>
      rw [fromWord?_of_none hcut]
      rfl
    | some cut =>
      obtain ⟨rest, hafter⟩ := exists_of_cutAtText? hcut
      have hwhole := whole_of_cutWhere _ hcut
      rw [Cut.whole, hafter] at hwhole
      -- Seen from the front, the occurrence is behind what the search from the end has not read yet.
      have ht : t = rest.reverse ++ (keyword ++ cut.before.reverse) := by
        rw [← List.reverse_reverse t, ← hwhole]
        simp only [List.reverse_append, List.reverse_reverse, List.append_assoc]
      have hdrop : cut.after.drop keyword.length = rest := by
        rw [hafter, ← keyword.length_reverse, List.drop_left]
      have hlength : rest.reverse.length < t.length := by
        have hpos := List.length_pos_iff.2 hne
        rw [ht, List.length_append, List.length_append]
        omega
      have hrest := ih _ hlength rest.reverse (keyword ++ (cut.before.reverse ++ tail)) rfl
      have hat := isWholeWord_append rest.reverse keyword (cut.before.reverse ++ tail)
      have hstart : (keyword ++ (cut.before.reverse ++ tail) : Text).startsInWord = true := by
        rw [← endsInWord_reverse, List.reverse_append, endsInWord_append_word hword' hne']
      have hin : startsInWord (cut.before.reverse ++ tail) =
          (cut.before.getLast?.map isIdentChar).getD tail.startsInWord := by
        rw [← endsInWord_reverse, List.reverse_append, List.reverse_reverse, endsInWord_append,
          endsInWord_reverse]
      rw [hstart, List.reverse_reverse] at hrest
      rw [endsInWord_reverse, hin, Bool.and_comm] at hat
      rw [fromWord?_of_some hword' hne' hcut hafter]
      dsimp only [Option.map_some]
      rw [hdrop, ← size_reverse rest, ht]
      simp only [List.append_assoc]
      rw [hat, pure_bind, hrest]
      split
      · rw [Option.map_some, hdrop, size_reverse]
      · rfl

theorem findLastKeyword_eq (hword : ∀ c ∈ keyword, isIdentChar c = true) (hne : keyword ≠ [])
    (t : Text) :
    findLastKeyword t keyword = pure ((t.cutAtLastWord? keyword).map fun cut => cut.before.size) := by
  have hupTo := findLastKeywordUpTo_eq hword hne t []
  rw [List.append_nil] at hupTo
  rw [findLastKeyword, hupTo, cutAtLastWord?, Option.map_map, fromWord?, Option.map_map]
  congr 2
  funext cut
  exact (size_reverse _).symm

end Search

section Keywords

variable {keywords : List Text} {keyword : Text}

/-- What the keywords of a list have to be: words that are not empty. -/
def allWords (keywords : List Text) : Bool :=
  keywords.all fun keyword => !keyword.isEmpty && keyword.all isIdentChar

theorem word_of_allWords (h : allWords keywords = true) (hmem : keyword ∈ keywords) :
    (∀ c ∈ keyword, isIdentChar c = true) ∧ keyword ≠ [] := by
  have hkeyword := List.all_eq_true.1 h keyword hmem
  rw [Bool.and_eq_true, Bool.not_eq_true', List.isEmpty_eq_false_iff, List.all_eq_true] at hkeyword
  exact ⟨hkeyword.2, hkeyword.1⟩

/-- A text starts with a keyword if it is its first word. -/
theorem startsWithKeyword_eq (hword : ∀ c ∈ keyword, isIdentChar c = true) (t : Text) :
    startsWithKeyword t keyword = (t.leadingWord == keyword) := by
  rw [startsWithKeyword, dropLead?]
  by_cases hlead : keyword.isPrefixOf t = true
  · obtain ⟨rest, rfl⟩ := List.isPrefixOf_iff_prefix.1 hlead
    rw [if_pos hlead, leadingWord_beq hword]
    dsimp only
    rw [List.drop_left]
  · rw [if_neg hlead, Eq.comm, Bool.eq_false_iff]
    exact fun h => hlead (isPrefixOf_of_leadingWord h)

/-- Behind a keyword at the start of a text is what follows its first word. -/
theorem sliceFrom_keyword {t : Text} (h : t.leadingWord = keyword) :
    sliceFrom t keyword.size = pure t.afterLeadingWord := by
  have hslice := sliceFrom_append t.leadingWord t.afterLeadingWord
  rwa [leadingWord_append_afterLeadingWord, h] at hslice

/-- Leaving out qualifying words makes no misstep. -/
theorem stripQualifiers_eq (h : allWords keywords = true) (t : Text) :
    stripQualifiers keywords t = pure (t.dropQualifiers keywords) := by
  rw [stripQualifiers]
  fun_induction dropQualifiers keywords t with
  | case1 t hlead _ _ ih =>
    rw [Keywords.strip]
    cases hfind : keywords.find? fun keyword => startsWithKeyword t.trimStart keyword with
    | none =>
      have hnone := List.find?_eq_none.1 hfind t.trimStart.leadingWord hlead.2
      rw [startsWithKeyword_eq (word_of_allWords h hlead.2).1] at hnone
      exact absurd (beq_self_eq_true _) hnone
    | some keyword =>
      have hmem := List.mem_of_find?_eq_some hfind
      have hword := List.find?_some hfind
      rw [startsWithKeyword_eq (word_of_allWords h hmem).1, beq_iff_eq] at hword
      dsimp only
      rw [sliceFrom_keyword hword, pure_bind]
      exact ih
  | case2 t hlead =>
    rw [Keywords.strip]
    cases hfind : keywords.find? fun keyword => startsWithKeyword t.trimStart keyword with
    | none => rfl
    | some keyword =>
      have hmem := List.mem_of_find?_eq_some hfind
      have hword := List.find?_some hfind
      rw [startsWithKeyword_eq (word_of_allWords h hmem).1, beq_iff_eq] at hword
      exact absurd ⟨hword ▸ (word_of_allWords h hmem).2, hword ▸ hmem⟩ hlead

theorem isBlockStatement_eq (hword : ∀ c ∈ keyword, isIdentChar c = true) (t : Text) :
    isBlockStatement t keyword = pure (startsBlock t keyword) := by
  rw [isBlockStatement, startsWithKeyword_eq hword, startsBlock]
  by_cases hlead : t.leadingWord = keyword
  · rw [if_pos (beq_iff_eq.2 hlead), sliceFrom_keyword hlead, pure_bind, beq_iff_eq.2 hlead,
      Bool.true_and]
  · rw [if_neg (by rwa [beq_iff_eq]), beq_eq_false_iff_ne.2 hlead, Bool.false_and]

end Keywords

end ByOffset

end ClassFlattening
