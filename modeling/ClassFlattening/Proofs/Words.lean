import ClassFlattening.Identifier
import Mathlib.Data.List.Basic
import Mathlib.Data.List.TakeWhile

/-!
# Words and blanks in a text

What trimming and the search for words do to a text that is put together from words and blanks. A
character of an identifier is neither a blank nor a sign, so a word ends where a sign or a blank follows
it, and trimming leaves a word alone.
-/

namespace ClassFlattening

/-- A character with a property that no blank has is no blank. -/
theorem isBlank_eq_false {p : Char → Bool} {c : Char} (h : p c = true)
    (hpoints : ∀ range ∈ blankRanges, ∀ n ∈ List.range' range.1 (range.2 + 1 - range.1),
      p (Char.ofNat n) = false) : isBlank c = false := by
  rw [Bool.eq_false_iff]
  intro hblank
  obtain ⟨range, hrange, hlow, hhigh⟩ := inRanges_iff.1 hblank
  have hmem : c.toNat ∈ List.range' range.1 (range.2 + 1 - range.1) := by
    rw [List.mem_range'_1]
    omega
  have hnone := hpoints range hrange c.toNat hmem
  rw [Char.ofNat_toNat, h] at hnone
  cases hnone

/-- A character of an identifier is no blank. -/
theorem isBlank_of_isIdentChar {c : Char} (h : isIdentChar c = true) : isBlank c = false :=
  isBlank_eq_false h (by decide +kernel)

/-- The start of an identifier is a character of one. -/
theorem isIdentChar_of_isIdentStart {c : Char} (h : isIdentStart c = true) : isIdentChar c = true := by
  rw [isIdentStart, Bool.or_eq_true] at h
  rcases h with h | h
  · simp [isIdentChar, h]
  · simp [isIdentChar, h]

/-- An identifier has characters of identifiers only. -/
theorem isIdentChar_of_mem {name : Text} (h : isIdentifier name = true) {c : Char} (hc : c ∈ name) :
    isIdentChar c = true := by
  cases name with
  | nil => cases h
  | cons d name =>
    rw [isIdentifier, Bool.and_eq_true, List.all_eq_true] at h
    rcases List.mem_cons.1 hc with rfl | hc
    · exact isIdentChar_of_isIdentStart h.1
    · exact h.2 c hc

/-- An identifier is not empty. -/
theorem ne_nil_of_isIdentifier {name : Text} (h : isIdentifier name = true) : name ≠ [] := by
  rintro rfl
  cases h

/-- A character that cannot stand in an identifier stands in none. -/
theorem not_mem_of_isIdentifier {name : Text} (h : isIdentifier name = true) {c : Char}
    (hc : isIdentChar c = false) : c ∉ name := by
  intro hmem
  rw [isIdentChar_of_mem h hmem] at hc
  cases hc

namespace Text

/-- What a computation finds of every character of a text holds of each. -/
theorem forall_of_all {t : Text} {p : Char → Prop} [DecidablePred p]
    (h : t.all (fun c => decide (p c)) = true) : ∀ c ∈ t, p c :=
  fun c hc => of_decide_eq_true (List.all_eq_true.1 h c hc)

section Trimming

variable {s t u : Text}

/-- Trimming removes blanks in front of a text. -/
theorem trimStart_append (h : s.allBlank = true) : (s ++ t).trimStart = t.trimStart :=
  List.dropWhile_append_of_pos (List.all_eq_true.1 h)

/-- Trimming removes blanks behind a text. -/
theorem trimEnd_append (h : u.allBlank = true) : (t ++ u).trimEnd = t.trimEnd := by
  rw [trimEnd, trimEnd, List.reverse_append, List.dropWhile_append_of_pos]
  intro c hc
  exact List.all_eq_true.1 h c (List.mem_reverse.1 hc)

/-- Trimming takes off in front of a sign what it takes off the text in front of it. -/
theorem trimStart_append_cons {c : Char} (hc : isBlank c = false) (s t : Text) :
    trimStart (s ++ c :: t) = s.trimStart ++ c :: t := by
  induction s with
  | nil => exact List.dropWhile_cons_of_neg (by simp [hc])
  | cons d s ih =>
    rw [trimStart] at ih ⊢
    cases hd : isBlank d with
    | true => rw [List.cons_append, List.dropWhile_cons_of_pos hd, ih, trimStart, trimStart,
        List.dropWhile_cons_of_pos hd]
    | false => rw [List.cons_append, List.dropWhile_cons_of_neg (by simp [hd]), trimStart,
        List.dropWhile_cons_of_neg (by simp [hd]), List.cons_append]

/-- Trimming takes off behind a sign what it takes off the text behind it. -/
theorem trimEnd_append_cons {c : Char} (hc : isBlank c = false) (s t : Text) :
    trimEnd (s ++ c :: t) = s ++ c :: t.trimEnd := by
  have hreverse : (s ++ c :: t).reverse = t.reverse ++ c :: s.reverse := by simp
  have hback : List.dropWhile isBlank (t.reverse ++ c :: s.reverse) =
      t.reverse.dropWhile isBlank ++ c :: s.reverse := trimStart_append_cons hc _ _
  rw [trimEnd, hreverse, hback, trimEnd]
  simp

/-- Trimming leaves a sign where it is. -/
theorem trim_append_cons {c : Char} (hc : isBlank c = false) (s t : Text) :
    trim (s ++ c :: t) = s.trimStart ++ c :: t.trimEnd := by
  rw [trim, trimStart_append_cons hc, trimEnd_append_cons hc]

/-- Trimming the end never lengthens a text. -/
theorem length_trimEnd_le (t : Text) : t.trimEnd.length ≤ t.length := by
  rw [trimEnd, List.length_reverse, ← t.length_reverse]
  exact (List.dropWhile_sublist _).length_le

/-- Trimming never lengthens a text. -/
theorem length_trim_le (t : Text) : t.trim.length ≤ t.length :=
  t.trimStart.length_trimEnd_le.trans t.length_trimStart_le

/-- A trimmed text has no blanks in front. -/
theorem trimStart_eq_self (h : t.trim = t) : t.trimStart = t := by
  have hle := t.trimStart.length_trimEnd_le
  rw [← trim, h] at hle
  exact (List.dropWhile_suffix isBlank).eq_of_length_le hle

/-- A trimmed text has no blanks at its end. -/
theorem trimEnd_eq_self (h : t.trim = t) : t.trimEnd = t := by
  rw [trim, trimStart_eq_self h] at h
  exact h

/-- The first character of a trimmed text is no blank. -/
theorem isBlank_head (h : t.trim = t) {c : Char} (hc : t.head? = some c) : isBlank c = false := by
  obtain ⟨rest, rfl⟩ := List.head?_eq_some_iff.1 hc
  exact not_isBlank_of_trimStart_eq_cons (trimStart_eq_self h)

/-- The last character of a trimmed text is no blank. -/
theorem isBlank_getLast (h : t.trim = t) {c : Char} (hc : t.getLast? = some c) : isBlank c = false := by
  have hreverse := congrArg List.reverse (trimEnd_eq_self h)
  rw [trimEnd, List.reverse_reverse] at hreverse
  rw [← List.head?_reverse] at hc
  obtain ⟨rest, hrest⟩ := List.head?_eq_some_iff.1 hc
  rw [hrest] at hreverse
  exact not_isBlank_of_trimStart_eq_cons hreverse

/-- A text is trimmed if it neither starts nor ends with a blank. -/
theorem trim_eq_self (hhead : ∀ c ∈ t.head?, isBlank c = false)
    (hlast : ∀ c ∈ t.getLast?, isBlank c = false) : t.trim = t := by
  have hstart : t.trimStart = t := by
    cases t with
    | nil => rfl
    | cons c t => exact List.dropWhile_cons_of_neg (by simp [hhead c rfl])
  rw [trim, hstart, trimEnd]
  rw [← List.head?_reverse] at hlast
  cases hrev : t.reverse with
  | nil => rw [List.reverse_eq_nil_iff.1 hrev]; rfl
  | cons c rest =>
    rw [hrev] at hlast
    rw [List.dropWhile_cons_of_neg (by simp [hlast c rfl]), ← hrev, List.reverse_reverse]

/-- What trimming leaves of a text is trimmed. -/
theorem trim_trim (t : Text) : t.trim.trim = t.trim := by
  apply trim_eq_self
  · intro c hc
    have hprefix := List.reverse_prefix.2 (List.dropWhile_suffix isBlank (l := t.trimStart.reverse))
    rw [List.reverse_reverse] at hprefix
    obtain ⟨rest, hrest⟩ : t.trim <+: t.trimStart := hprefix
    obtain ⟨more, hmore⟩ := List.head?_eq_some_iff.1 hc
    rw [hmore] at hrest
    exact not_isBlank_of_trimStart_eq_cons hrest.symm
  · intro c hc
    rw [← List.head?_reverse, trim, trimEnd, List.reverse_reverse] at hc
    obtain ⟨more, hmore⟩ := List.head?_eq_some_iff.1 hc
    exact not_isBlank_of_trimStart_eq_cons hmore

/-- Trimming removes the blanks around a trimmed text. -/
theorem trim_around (hs : s.allBlank = true) (ht : t.trim = t) (hu : u.allBlank = true) :
    (s ++ t ++ u).trim = t := by
  rw [List.append_assoc, trim, trimStart_append hs]
  cases t with
  | nil =>
    have hnone := trimStart_append (t := []) hu
    rw [List.append_nil] at hnone
    rw [List.nil_append, hnone]
    rfl
  | cons c t =>
    have hc := isBlank_head ht rfl
    have hstart : trimStart (c :: t ++ u) = c :: t ++ u :=
      List.dropWhile_cons_of_neg (by simp [hc])
    rw [hstart, trimEnd_append hu, trimEnd_eq_self ht]

/-- A text is what trimming leaves of it with blanks around it. -/
theorem exists_blanks (t : Text) :
    ∃ front back : Text, t = front ++ t.trim ++ back ∧ front.allBlank = true ∧ back.allBlank = true := by
  have hstart := List.takeWhile_append_dropWhile (p := isBlank) (l := t)
  have hend := List.takeWhile_append_dropWhile (p := isBlank) (l := t.trimStart.reverse)
  refine ⟨t.takeWhile isBlank, (t.trimStart.reverse.takeWhile isBlank).reverse, ?_, ?_, ?_⟩
  · rw [List.append_assoc, trim, trimEnd, ← List.reverse_append, hend, List.reverse_reverse]
    exact hstart.symm
  · exact List.all_takeWhile
  · rw [allBlank, List.all_reverse]
    exact List.all_takeWhile

/-- Trimming removes a blank in front. -/
theorem trim_cons {c : Char} (hc : isBlank c = true) (t : Text) : trim (c :: t) = t.trim := by
  rw [trim, trim, trimStart, trimStart, List.dropWhile_cons_of_pos hc]

/-- Trimming removes a blank in front of a trimmed text. -/
theorem trim_blank_cons {c : Char} (hc : isBlank c = true) (ht : t.trim = t) : trim (c :: t) = t :=
  (trim_cons hc t).trans ht

/-- What trimming removes behind a trimmed text are blanks. -/
theorem allBlank_of_trim_append (hne : s ≠ []) (hs : s.trim = s) (h : (s ++ t).trim = s) :
    t.allBlank = true := by
  obtain ⟨front, back, hwhole, hfront, hback⟩ := (s ++ t).exists_blanks
  rw [h] at hwhole
  cases front with
  | nil =>
    rw [List.nil_append, List.append_cancel_left_eq] at hwhole
    rw [hwhole]
    exact hback
  | cons c front =>
    obtain ⟨d, s, rfl⟩ := List.exists_cons_of_ne_nil hne
    obtain ⟨rfl, -⟩ := List.cons.inj hwhole
    rw [allBlank, List.all_cons, isBlank_head hs rfl] at hfront
    cases hfront

/-- A text in front of a trimmed one keeps it trimmed if it starts with no blank. -/
theorem trim_cons_append {c : Char} (hc : isBlank c = false) (hne : t ≠ []) (ht : t.trim = t) :
    trim (c :: (s ++ t)) = c :: (s ++ t) := by
  apply trim_eq_self
  · intro d hd
    cases hd
    exact hc
  · intro d hd
    rw [← List.cons_append, List.getLast?_append_of_ne_nil _ hne] at hd
    exact isBlank_getLast ht hd

/-- An identifier is trimmed. -/
theorem trim_of_isIdentifier (h : isIdentifier t = true) : t.trim = t := by
  apply trim_eq_self
  · intro c hc
    exact isBlank_of_isIdentChar (isIdentChar_of_mem h (List.mem_of_mem_head? hc))
  · intro c hc
    exact isBlank_of_isIdentChar (isIdentChar_of_mem h (List.mem_of_mem_getLast? hc))

end Trimming

section Words

variable {word t : Text} {words : List Text} {c : Char}

/-- A word ends in front of a character that cannot stand in it. -/
theorem leadingWord_append (hword : ∀ d ∈ word, isIdentChar d = true) (hc : isIdentChar c = false) :
    (word ++ c :: t).leadingWord = word := by
  rw [leadingWord, List.takeWhile_append_of_pos hword, List.takeWhile_cons_of_neg (by simp [hc]),
    List.append_nil]

/-- What follows a word starts with the character that ends it. -/
theorem afterLeadingWord_append (hword : ∀ d ∈ word, isIdentChar d = true)
    (hc : isIdentChar c = false) : (word ++ c :: t).afterLeadingWord = c :: t := by
  rw [afterLeadingWord, List.dropWhile_append_of_pos hword, List.dropWhile_cons_of_neg (by simp [hc])]

/-- No word starts with a character that cannot stand in one. -/
theorem leadingWord_cons (hc : isIdentChar c = false) : leadingWord (c :: t) = [] :=
  List.takeWhile_cons_of_neg (by simp [hc])

/-- Two texts that agree up to the end of a word have the same word and the same character behind it. -/
theorem word_inj {other s : Text} {d : Char} (hword : ∀ e ∈ word, isIdentChar e = true)
    (hother : ∀ e ∈ other, isIdentChar e = true) (hc : isIdentChar c = false)
    (hd : isIdentChar d = false) (h : word ++ c :: t = other ++ d :: s) : word = other ∧ c = d := by
  have hlead := congrArg leadingWord h
  have hafter := congrArg afterLeadingWord h
  rw [leadingWord_append hword hc, leadingWord_append hother hd] at hlead
  rw [afterLeadingWord_append hword hc, afterLeadingWord_append hother hd] at hafter
  exact ⟨hlead, (List.cons.inj hafter).1⟩

/-- A text starts with a word and the character behind it just if these are its own. -/
theorem isPrefixOf_word {other : Text} {d : Char} (hword : ∀ e ∈ word, isIdentChar e = true)
    (hother : ∀ e ∈ other, isIdentChar e = true) (hc : isIdentChar c = false)
    (hd : isIdentChar d = false) (hne : c ≠ d) :
    (other ++ [d]).isPrefixOf (word ++ c :: t) = false := by
  rw [Bool.eq_false_iff]
  intro h
  obtain ⟨s, hs⟩ := List.isPrefixOf_iff_prefix.1 h
  rw [List.append_assoc, List.singleton_append] at hs
  exact hne (word_inj hother hword hd hc hs).2.symm

/-- A text that starts with a word starts with no blank. -/
theorem trimStart_word (hword : isIdentifier word = true) : (word ++ t).trimStart = word ++ t := by
  cases word with
  | nil => cases hword
  | cons d word =>
    have hd := isBlank_of_isIdentChar (isIdentChar_of_mem hword List.mem_cons_self)
    exact List.dropWhile_cons_of_neg (by simp [hd])

/-- A blank in front of qualifying words is removed. -/
theorem dropQualifiers_blank (hc : isBlank c = true) :
    dropQualifiers words (c :: t) = dropQualifiers words t := by
  have hstart : trimStart (c :: t) = t.trimStart := List.dropWhile_cons_of_pos hc
  conv_lhs => rw [dropQualifiers]
  conv_rhs => rw [dropQualifiers]
  simp only [hstart]

/-- A text that starts with neither a blank nor a word is left alone. -/
theorem dropQualifiers_cons (hblank : isBlank c = false) (hc : isIdentChar c = false) :
    dropQualifiers words (c :: t) = c :: t := by
  have hstart : trimStart (c :: t) = c :: t := List.dropWhile_cons_of_neg (by simp [hblank])
  rw [dropQualifiers, dif_neg, hstart]
  rw [hstart, leadingWord_cons hc]
  exact fun h => h.1 rfl

/-- A qualifying word in front is removed. -/
theorem dropQualifiers_word (hword : isIdentifier word = true) (hmem : word ∈ words)
    (hc : isIdentChar c = false) : dropQualifiers words (word ++ c :: t) = dropQualifiers words (c :: t) := by
  have hchars : ∀ d ∈ word, isIdentChar d = true := fun d => isIdentChar_of_mem hword
  rw [dropQualifiers, dif_pos]
  · simp only [trimStart_word hword, afterLeadingWord_append hchars hc]
  · rw [trimStart_word hword, leadingWord_append hchars hc]
    exact ⟨ne_nil_of_isIdentifier hword, hmem⟩

/-- A text that starts with another word is left alone. -/
theorem dropQualifiers_other (hword : isIdentifier word = true) (hmem : word ∉ words)
    (hc : isIdentChar c = false) : dropQualifiers words (word ++ c :: t) = word ++ c :: t := by
  have hchars : ∀ d ∈ word, isIdentChar d = true := fun d => isIdentChar_of_mem hword
  rw [dropQualifiers, dif_neg]
  · exact trimStart_word hword
  · rw [trimStart_word hword, leadingWord_append hchars hc]
    exact fun h => hmem h.2

/-- The decision of the search for a word. -/
theorem cutAtWord?_cons (hc : isIdentChar c = false) (hword : word ≠ []) :
    cutAtWord? (c :: t) word = (t.cutAtWord? word).map fun cut => ⟨c :: cut.before, cut.after⟩ := by
  have hlead : (([] : Text) == word) = false := by
    rw [beq_eq_false_iff_ne]
    exact hword.symm
  rw [cutAtWord?, cutWhere_cons, leadingWord_cons hc, hlead, hc]
  rfl

/-- The search for a word passes the rest of another one. -/
theorem cutWhere_rest_of_word {other : Text} (hother : ∀ d ∈ other, isIdentChar d = true)
    (hc : isIdentChar c = false) :
    cutWhere (fun inWord d rest =>
        if !inWord && leadingWord (d :: rest) == word then .stop else .pass (isIdentChar d)) true
        (other ++ c :: t) =
      (t.cutAtWord? word).map fun cut => ⟨other ++ c :: cut.before, cut.after⟩ := by
  induction other with
  | nil =>
    rw [List.nil_append, cutWhere_cons, hc]
    rfl
  | cons d other ih =>
    rw [List.cons_append, cutWhere_cons, hother d List.mem_cons_self]
    simp only [Bool.not_true, Bool.false_and, Bool.false_eq_true, if_false]
    rw [ih fun e he => hother e (List.mem_cons_of_mem d he), Option.map_map]
    rfl

/-- The search for a word passes other words. -/
theorem cutAtWord?_other {other : Text} (hother : ∀ d ∈ other, isIdentChar d = true)
    (hne : other ≠ word) (hnil : other ≠ []) (hc : isIdentChar c = false) :
    (other ++ c :: t).cutAtWord? word =
      (t.cutAtWord? word).map fun cut => ⟨other ++ c :: cut.before, cut.after⟩ := by
  have hlead : ((other ++ c :: t).leadingWord == word) = false := by
    rw [leadingWord_append hother hc, beq_eq_false_iff_ne]
    exact hne
  obtain ⟨d, rest, rfl⟩ := List.exists_cons_of_ne_nil hnil
  rw [List.cons_append] at hlead ⊢
  rw [cutAtWord?, cutWhere_cons, hlead, hother d List.mem_cons_self]
  simp only [Bool.and_false, Bool.false_eq_true, if_false]
  rw [cutWhere_rest_of_word (fun e he => hother e (List.mem_cons_of_mem d he)) hc, Option.map_map]
  rfl

/-- The search for a word stops at the word. -/
theorem cutAtWord?_self (hword : ∀ d ∈ word, isIdentChar d = true) (hnil : word ≠ [])
    (hc : isIdentChar c = false) : (word ++ c :: t).cutAtWord? word = some ⟨[], word ++ c :: t⟩ := by
  have hlead : ((word ++ c :: t).leadingWord == word) = true := by
    rw [leadingWord_append hword hc, beq_self_eq_true]
  obtain ⟨d, rest, hcons⟩ := List.exists_cons_of_ne_nil hnil
  rw [hcons, List.cons_append] at hlead ⊢
  rw [cutAtWord?, cutWhere_cons, hlead]
  rfl

end Words

section First

variable {p : Char → Bool} {s t : Text} {c : Char}

/-- The search for a character passes a text without one. -/
theorem cutAtFirst?_append (hs : ∀ d ∈ s, p d = false) :
    (s ++ t).cutAtFirst? p = (t.cutAtFirst? p).map fun cut => ⟨s ++ cut.before, cut.after⟩ := by
  induction s with
  | nil =>
    cases h : t.cutAtFirst? p with
    | none => rw [List.nil_append, h]; rfl
    | some cut => rw [List.nil_append, h]; rfl
  | cons d s ih =>
    have hrest := ih fun e he => hs e (List.mem_cons_of_mem d he)
    rw [cutAtFirst?] at hrest ⊢
    rw [List.cons_append, cutWhere_cons, hs d List.mem_cons_self]
    simp only [Bool.false_eq_true, if_false, hrest, Option.map_map]
    rfl

/-- The search for a character stops at the first one. -/
theorem cutAtFirst?_self (hs : ∀ d ∈ s, p d = false) (hc : p c = true) :
    (s ++ c :: t).cutAtFirst? p = some ⟨s, c :: t⟩ := by
  have hstop : cutAtFirst? p (c :: t) = some ⟨[], c :: t⟩ := by
    rw [cutAtFirst?, cutWhere_cons, hc]
    rfl
  rw [cutAtFirst?_append hs, hstop, Option.map_some, List.append_nil]

/-- The first sign behind a word and blanks. -/
theorem cutAtFirst?_behind_word {word gap : Text} (hword : isIdentifier word = true) (hgap : gap.allBlank = true)
    (hchar : isIdentChar c = false) (hblank : isBlank c = false) (t : Text) :
    cutAtFirst? (· == c) (word ++ (gap ++ c :: t)) = some ⟨word ++ gap, c :: t⟩ := by
  have hfirst : ∀ d ∈ word ++ gap, (d == c) = false := by
    intro d hd
    rw [beq_eq_false_iff_ne]
    rintro rfl
    rcases List.mem_append.1 hd with hd | hd
    · exact not_mem_of_isIdentifier hword hchar hd
    · exact Bool.eq_false_iff.1 hblank (List.all_eq_true.1 hgap d hd)
  rw [← List.append_assoc]
  exact cutAtFirst?_self hfirst (beq_self_eq_true c)

/-- A text in which no character with a property is found has none. -/
theorem forall_of_cutAtFirst?_eq_none (h : t.cutAtFirst? p = none) : ∀ d ∈ t, p d = false := by
  have hany := isSome_cutAtFirst? p t
  rw [h, Option.isSome_none, eq_comm, List.any_eq_false] at hany
  exact fun d hd => Bool.eq_false_iff.2 (hany d hd)

/-- No character in front of the first one with a property has the property. -/
theorem forall_of_cutAtFirst? {cut : Cut} (h : t.cutAtFirst? p = some cut) : ∀ d ∈ cut.before, p d = false := by
  induction t generalizing cut with
  | nil => cases h
  | cons d t ih =>
    rw [cutAtFirst?] at h
    rcases cutWhere_cases h with ⟨-, rfl⟩ | ⟨⟨⟩, inner, hpass, hinner, rfl⟩
    · simp
    · have hd : p d = false := by
        by_contra htrue
        simp [Bool.not_eq_false _ ▸ htrue] at hpass
      exact List.forall_mem_cons.2 ⟨hd, ih hinner⟩

/-- A character that is found in a text is found where more text follows. -/
theorem cutAtFirst?_append_of_some {cut : Cut} (h : s.cutAtFirst? p = some cut) (t : Text) :
    cutAtFirst? p (s ++ t) = some ⟨cut.before, cut.after ++ t⟩ := by
  induction s generalizing cut with
  | nil => cases h
  | cons c s ih =>
    rw [cutAtFirst?, cutWhere_cons] at h
    rw [List.cons_append, cutAtFirst?, cutWhere_cons]
    cases hc : p c with
    | true =>
      rw [hc] at h
      cases h
      rfl
    | false =>
      rw [hc] at h
      obtain ⟨rest, hrest, rfl⟩ := Option.map_eq_some_iff.1 h
      have hmore := ih hrest
      rw [cutAtFirst?] at hmore
      simp only [Bool.false_eq_true, if_false, hmore, Option.map_some]

end First

section Last

variable {t : Text}

/-- A text has a last character with a property, or none has the property. -/
theorem last_cases (p : Char → Bool) (t : Text) :
    (∃ s d u, t = s ++ d :: u ∧ p d = true ∧ ∀ e ∈ u, p e = false) ∨ ∀ e ∈ t, p e = false := by
  induction t with
  | nil => exact Or.inr fun e he => by cases he
  | cons c rest ih =>
    obtain ⟨s, d, u, rfl, hd, hu⟩ | hrest := ih
    · exact Or.inl ⟨c :: s, d, u, rfl, hd, hu⟩
    · cases hc : p c with
      | true => exact Or.inl ⟨[], c, rest, rfl, hc, hrest⟩
      | false => exact Or.inr (List.forall_mem_cons.2 ⟨hc, hrest⟩)

/-- The cut behind the last character with the property. -/
theorem cutAfterLast_append (p : Char → Bool) {s u : Text} {d : Char} (hd : p d = true)
    (hu : ∀ e ∈ u, p e = false) :
    cutAfterLast p (s ++ d :: u) = ⟨s ++ [d], u⟩ := by
  have hpass : ∀ e ∈ u.reverse, (!p e) = true := by
    intro e he
    rw [hu e (List.mem_reverse.1 he)]
    rfl
  have hreverse : (s ++ d :: u).reverse = u.reverse ++ d :: s.reverse := by simp
  rw [cutAfterLast, hreverse, List.dropWhile_append_of_pos hpass, List.takeWhile_append_of_pos hpass,
    List.dropWhile_cons_of_neg (by simp [hd]), List.takeWhile_cons_of_neg (by simp [hd])]
  simp

/-- Where the property does not occur there is no last character with it. -/
theorem cutAfterLast_of_none (p : Char → Bool) (h : ∀ e ∈ t, p e = false) :
    cutAfterLast p t = ⟨[], t⟩ := by
  have hpass : ∀ e ∈ t.reverse, (!p e) = true := by
    intro e he
    rw [h e (List.mem_reverse.1 he)]
    rfl
  have hdrop : t.reverse.dropWhile (fun e => !p e) = [] := List.dropWhile_eq_nil_iff.2 hpass
  have htake : t.reverse.takeWhile (fun e => !p e) = t.reverse := List.takeWhile_eq_self_iff.2 hpass
  rw [cutAfterLast, hdrop, htake, List.reverse_reverse]
  rfl

end Last

end Text

end ClassFlattening
