import ClassFlattening.Proofs.RenamedWords
import ClassFlattening.Member

/-!
# Texts that are spelt alike

Two texts are spelt alike if they are the same word by word, except that the old name may stand in the
first where the new one stands in the second. Renaming gives such a text, whatever it takes for code.
Signs stand at corresponding places of both, so whatever looks at signs alone, or for words other than the
two names, comes to corresponding ends in them: trimming, the searches for brackets and separators, and
the search for the brace that opens a body.
-/

namespace ClassFlattening

open Text

/-- The second text is the first with some of the words that are the old name replaced by the new one. -/
inductive Respelled (old new : Text) : Text → Text → Prop
  | nil : Respelled old new [] []
  | sign {c : Char} {s t : Text} (hc : isIdentChar c = false) (rest : Respelled old new s t) :
      Respelled old new (c :: s) (c :: t)
  | word {v w s t : Text} (hv : v.IsWord) (hw : w.IsWord) (hvw : v = w ∨ v = old ∧ w = new)
      (hs : s.startsInWord = false) (ht : t.startsInWord = false) (rest : Respelled old new s t) :
      Respelled old new (v ++ s) (w ++ t)

section Words

variable {w t : Text}

/-- A word that something else follows is the word of a text. -/
theorem Text.IsWord.leadingWord_append (hw : w.IsWord) (ht : t.startsInWord = false) :
    (w ++ t).leadingWord = w := by
  have hlead := (leadingWord_beq hw.2 t).trans (congrArg (!·) ht)
  exact eq_of_beq hlead

/-- What follows the word of a text. -/
theorem Text.IsWord.afterLeadingWord_append (hw : w.IsWord) (ht : t.startsInWord = false) :
    (w ++ t).afterLeadingWord = t := by
  have hwhole := leadingWord_append_afterLeadingWord (w ++ t)
  rw [hw.leadingWord_append ht] at hwhole
  exact List.append_cancel_left hwhole

/-- A text that starts with a word starts with no blank. -/
theorem Text.IsWord.trimStart_append (hw : w.IsWord) (t : Text) : (w ++ t).trimStart = w ++ t := by
  obtain ⟨c, w, rfl⟩ := List.exists_cons_of_ne_nil hw.1
  have hc := isBlank_of_isIdentChar (hw.2 c List.mem_cons_self)
  exact List.dropWhile_cons_of_neg (by simp [hc])

theorem Text.IsWord.reverse (hw : w.IsWord) : IsWord w.reverse := by
  refine ⟨?_, fun c hc => hw.2 c (List.mem_reverse.1 hc)⟩
  intro hnil
  exact hw.1 (List.reverse_eq_nil_iff.1 hnil)

end Words

namespace Respelled

variable {old new s t u v : Text} {c : Char}

/-- Every text is spelt like itself. -/
theorem refl (old new t : Text) : Respelled old new t t := by
  induction t using wordInduction with
  | nil => exact .nil
  | sign c t hc ih => exact .sign hc ih
  | word w t hw ht ih => exact .word hw hw (Or.inl rfl) ht ht ih

/-- Seen from the second text the names change places. -/
theorem symm (h : Respelled old new s t) : Respelled new old t s := by
  induction h with
  | nil => exact .nil
  | sign hc _ ih => exact .sign hc ih
  | word hv hw hvw hs ht _ ih =>
    refine .word hw hv ?_ ht hs ih
    exact hvw.imp Eq.symm And.symm

/-- Renaming spells a text anew. -/
theorem renameFrom (hold : old.IsWord) (hnew : new.IsWord) {mode : Mode} (hmode : mode.IsProper)
    (t : Text) : Respelled old new t (renameFrom old new mode false 0 t) := by
  induction t using wordInduction generalizing mode with
  | nil =>
    rw [renameFrom_nil]
    exact .nil
  | sign c t hc ih =>
    rw [renameFrom_sign hold hc]
    exact .sign hc (ih (hmode.read _ c t))
  | word w t hw ht ih =>
    have hrest := ih hmode.behindWord
    have ht' : (ClassFlattening.renameFrom old new mode.behindWord false 0 t).startsInWord = false := by
      cases t with
      | nil =>
        rw [renameFrom_nil]
        rfl
      | cons c t =>
        rw [renameFrom_sign hold ht]
        exact ht
    rw [renameFrom_word hold hmode hw ht]
    split
    · next hreplace => exact .word hw hnew (Or.inr ⟨hreplace.2, rfl⟩) ht ht' hrest
    · exact .word hw hw (Or.inl rfl) ht ht' hrest

/-- Both texts start within a word or neither does. -/
theorem startsInWord_eq (h : Respelled old new s t) : s.startsInWord = t.startsInWord := by
  cases h with
  | nil => rfl
  | sign hc _ => rfl
  | word hv hw _ _ _ _ => rw [hv.startsInWord_append, hw.startsInWord_append]

/-- Both texts are empty or neither is. -/
theorem isEmpty_eq (h : Respelled old new s t) : s.isEmpty = t.isEmpty := by
  cases h with
  | nil => rfl
  | sign hc _ => rfl
  | word hv hw _ _ _ _ =>
    obtain ⟨c, v, rfl⟩ := List.exists_cons_of_ne_nil hv.1
    obtain ⟨d, w, rfl⟩ := List.exists_cons_of_ne_nil hw.1
    rfl

/-- Both texts start with a sign, the same one, or neither does. -/
theorem head?_beq (h : Respelled old new s t) (hc : isIdentChar c = false) :
    (s.head? == some c) = (t.head? == some c) := by
  have hword {w : Text} (hw : w.IsWord) (u : Text) : ((w ++ u).head? == some c) = false := by
    obtain ⟨d, w, rfl⟩ := List.exists_cons_of_ne_nil hw.1
    have hd := hw.2 d List.mem_cons_self
    rw [beq_eq_false_iff_ne]
    intro heq
    obtain rfl := Option.some.inj heq
    rw [hd] at hc
    cases hc
  cases h with
  | nil => rfl
  | sign _ _ => rfl
  | word hv hw _ _ _ _ => rw [hword hv, hword hw]

/-- Texts that are put together at the end of a word, or not within a word, are spelt alike if their
parts are. -/
theorem append (h : Respelled old new s t) (hrest : Respelled old new u v) (hparted : Parted s u) :
    Respelled old new (s ++ u) (t ++ v) := by
  induction h with
  | nil => exact hrest
  | sign hc _ ih => exact .sign hc (ih hparted.of_cons)
  | @word v' w s t hv hw hvw hs ht _ ih =>
    obtain ⟨hparted', hstart⟩ := hparted.of_word hv hs
    have hboth := ih hparted'
    rw [List.append_assoc, List.append_assoc]
    exact .word hv hw hvw hstart (hboth.startsInWord_eq ▸ hstart) hboth

/-- A text that is spelt like one with a sign in front has the sign in front. -/
theorem exists_of_sign (h : Respelled old new (c :: s) t) (hc : isIdentChar c = false) :
    ∃ t', t = c :: t' ∧ Respelled old new s t' := by
  generalize hwhole : c :: s = whole at h
  cases h with
  | nil => cases hwhole
  | sign _ rest =>
    cases hwhole
    exact ⟨_, rfl, rest⟩
  | @word v w s' t' hv _ _ _ _ _ =>
    have hstart := hv.startsInWord_append s'
    rw [← hwhole, startsInWord_cons, hc] at hstart
    cases hstart

/-- A text that is spelt like one with a word in front has a word in front. -/
theorem exists_of_word (h : Respelled old new (v ++ s) t) (hv : v.IsWord)
    (hs : s.startsInWord = false) :
    ∃ w t', t = w ++ t' ∧ w.IsWord ∧ (v = w ∨ v = old ∧ w = new) ∧ t'.startsInWord = false ∧
      Respelled old new s t' := by
  generalize hwhole : v ++ s = whole at h
  cases h with
  | nil =>
    have hstart := hv.startsInWord_append s
    rw [hwhole] at hstart
    cases hstart
  | @sign c s' t' hc _ =>
    have hstart := hv.startsInWord_append s
    rw [hwhole, startsInWord_cons, hc] at hstart
    cases hstart
  | @word v' w s' t' hv' hw hvw hs' ht' rest =>
    have hlead := hv.leadingWord_append hs
    have hafter := hv.afterLeadingWord_append hs
    rw [hwhole, hv'.leadingWord_append hs'] at hlead
    rw [hwhole, hv'.afterLeadingWord_append hs'] at hafter
    subst hlead hafter
    exact ⟨w, t', rfl, hw, hvw, ht', rest⟩

/-- A sign in the first text has its place in the second one. -/
theorem exists_of_append (h : Respelled old new (s ++ c :: u) t) (hc : isIdentChar c = false) :
    ∃ s' u', t = s' ++ c :: u' ∧ Respelled old new s s' ∧ Respelled old new u u' := by
  induction s using wordInduction generalizing t with
  | nil =>
    obtain ⟨u', rfl, hrest⟩ := h.exists_of_sign hc
    exact ⟨[], u', rfl, .nil, hrest⟩
  | sign d s hd ih =>
    obtain ⟨t', rfl, hrest⟩ := h.exists_of_sign hd
    obtain ⟨s', u', rfl, hs, hu⟩ := ih hrest
    exact ⟨d :: s', u', rfl, .sign hd hs, hu⟩
  | word v s hv hs ih =>
    rw [List.append_assoc] at h
    obtain ⟨w, t', rfl, hw, hvw, ht', hrest⟩ := h.exists_of_word hv (startsInWord_append hs hc)
    obtain ⟨s', u', rfl, hs', hu⟩ := ih hrest
    refine ⟨w ++ s', u', (List.append_assoc _ _ _).symm, ?_, hu⟩
    exact .word hv hw hvw hs (hs'.startsInWord_eq ▸ hs) hs'

/-- Read from the end the texts are spelt alike too. -/
theorem reverse (h : Respelled old new s t) :
    Respelled old.reverse new.reverse s.reverse t.reverse := by
  induction h with
  | nil => exact .nil
  | sign hc _ ih =>
    rw [List.reverse_cons, List.reverse_cons]
    exact ih.append (.sign hc .nil) (parted_of_startsInWord hc)
  | word hv hw hvw hs ht _ ih =>
    have hone := Respelled.word hv.reverse hw.reverse
      (hvw.imp (congrArg List.reverse) (And.imp (congrArg List.reverse) (congrArg List.reverse)))
      startsInWord_nil startsInWord_nil .nil
    rw [List.append_nil, List.append_nil] at hone
    rw [List.reverse_append, List.reverse_append]
    refine ih.append hone fun hend => ?_
    rw [endsInWord_reverse, hs] at hend
    cases hend

/-- Trimming keeps texts spelt alike. -/
theorem trimStart (h : Respelled old new s t) : Respelled old new s.trimStart t.trimStart := by
  induction h with
  | nil => exact .nil
  | @sign c s t hc rest ih =>
    rw [Text.trimStart, Text.trimStart, List.dropWhile_cons, List.dropWhile_cons]
    split
    · exact ih
    · exact .sign hc rest
  | word hv hw hvw hs ht rest _ =>
    rw [hv.trimStart_append, hw.trimStart_append]
    exact .word hv hw hvw hs ht rest

theorem trim (h : Respelled old new s t) : Respelled old new s.trim t.trim := by
  have hend := h.trimStart.reverse.trimStart.reverse
  rw [List.reverse_reverse, List.reverse_reverse] at hend
  exact hend

/-- Both texts start with a word that is neither name, or neither does. -/
theorem leadingWord_beq (h : Respelled old new s t) {word : Text} (hold : word ≠ old)
    (hnew : word ≠ new) : (s.leadingWord == word) = (t.leadingWord == word) := by
  cases h with
  | nil => rfl
  | sign hc _ => rw [leadingWord_cons hc, leadingWord_cons hc]
  | word hv hw hvw hs ht _ =>
    rw [hv.leadingWord_append hs, hw.leadingWord_append ht]
    rcases hvw with rfl | ⟨rfl, rfl⟩
    · rfl
    · rw [beq_eq_false_iff_ne.2 hold.symm, beq_eq_false_iff_ne.2 hnew.symm]

/-- Both texts end with a word that is neither name, or neither does. -/
theorem endsWithWord_eq (h : Respelled old new s t) {word : Text} (hold : word ≠ old)
    (hnew : word ≠ new) : endsWithWord s.reverse word = endsWithWord t.reverse word := by
  have hne {name : Text} (hname : word ≠ name) : word.reverse ≠ name.reverse :=
    fun heq => hname (List.reverse_injective heq)
  exact h.reverse.trimStart.leadingWord_beq (hne hold) (hne hnew)

end Respelled

end ClassFlattening
