import ClassFlattening.Proofs.ReadingBindings
import ClassFlattening.Proofs.Remarks
import ClassFlattening.Proofs.Respelling

/-!
# Places of a name

A place of a name in a text is where the name stands as a word of its own in code. The searches of the code read a
pair of backslashes as the start of a line that is no code, a renaming reads it as code; in a text without such
a line both are in the same mode everywhere. So a renaming replaces the name at its places in the text and
leaves everything else, and a text is renamed place by place.
-/

namespace ClassFlattening

namespace Text

/-- A line of a multiline literal starts in the text: a pair of backslashes in code. -/
def HasMultilineLine (t : Text) : Prop :=
  ∃ front back, t = front ++ '\\' :: '\\' :: back ∧ Mode.code.past front = .code

/-- A text without backslashes has no such line. -/
theorem not_hasMultilineLine_of_not_mem {t : Text} (h : '\\' ∉ t) : ¬t.HasMultilineLine := by
  rintro ⟨front, back, rfl, -⟩
  exact h (by simp)

/-- A word between two texts is one of its own and stands in code. -/
def IsPlace (front back : Text) : Prop :=
  front.endsInWord = false ∧ back.startsInWord = false ∧ Mode.code.past front = .code

instance (front back : Text) : Decidable (IsPlace front back) := inferInstanceAs (Decidable (_ ∧ _))

/-- Every place of a name in a text is behind one of the fronts. -/
def OnlyBehind (name t : Text) (fronts : List Text) : Prop :=
  ∀ front back, t = front ++ (name ++ back) → IsPlace front back → front ∈ fronts

/-- A text can be searched for the places of a name. -/
theorem onlyBehind_iff {name t : Text} {fronts : List Text} :
    OnlyBehind name t fronts ↔
      ∀ n ≤ t.length, name <+: t.drop n → IsPlace (t.take n) ((t.drop n).drop name.length) → t.take n ∈ fronts := by
  constructor
  · intro h n _ hname
    obtain ⟨back, hback⟩ := hname
    rw [← hback, List.drop_left]
    exact h _ back (by rw [hback, List.take_append_drop])
  · intro h front back ht
    have hplace := h front.length (by simp [ht])
    rw [ht, List.take_left, List.drop_left, List.drop_left] at hplace
    exact hplace (List.prefix_append name back)

instance (name t : Text) (fronts : List Text) : Decidable (OnlyBehind name t fronts) :=
  decidable_of_iff' _ onlyBehind_iff

end Text

open Text

namespace Mode

/-- Where no line of a multiline literal starts a renaming is in the mode in which the searches of the code are. -/
theorem behind_eq_past {mode : Mode} {t : Text}
    (h : ∀ front back, t = front ++ '\\' :: '\\' :: back → mode.past front ≠ .code) :
    mode.behind t = mode.past t := by
  induction t generalizing mode with
  | nil => rw [behind_nil]; rfl
  | cons c t ih =>
    -- A pair of backslashes at the start is where the two would part.
    have hpair (hmode : mode = .code) {rest : Text} (ht : t = '\\' :: rest) : c ≠ '\\' := by
      rintro rfl
      exact h [] rest (by rw [ht]; rfl) hmode
    have hread : mode.read (· == '/') c t = mode.step c t := by
      cases mode with
      | code =>
        by_cases hc : c = '\\'
        · have hdoubled : isDoubled c t = false := by
            cases t with
            | nil => rfl
            | cons d rest => exact beq_eq_false_iff_ne.2 fun hd => hpair rfl (by rw [Option.some.inj hd, hc]) hc
          simp only [Mode.step, Mode.read, hdoubled, Bool.and_false]
        · simp only [Mode.step, Mode.read, isLineStart, beq_eq_false_iff_ne.2 hc, Bool.or_false]
      | quoted quote => rfl
      | escaped quote => rfl
      | line => rfl
    have hstep {front back : Text} (ht : t = front ++ '\\' :: '\\' :: back) : mode.step c t = mode.step c front := by
      cases front with
      | cons d front => exact read_congr (by rw [ht]; rfl)
      | nil =>
        cases mode with
        | code =>
          refine read_congr ?_
          have hdoubled : isDoubled c t = false := by
            rw [ht]
            exact beq_eq_false_iff_ne.2 fun hc => hpair rfl ht (Option.some.inj hc).symm
          rw [hdoubled]
          rfl
        | quoted quote => rfl
        | escaped quote => rfl
        | line => rfl
    rw [behind_cons, hread, past, ih]
    intro front back ht
    have hfront := h (c :: front) back (by rw [ht]; rfl)
    rwa [past, ← hstep ht] at hfront

end Mode

section RenameFrom

variable {old new front back t : Text} {mode : Mode}

/-- A text without places of a name is left alone. -/
theorem renameFrom_eq_self (hold : old.IsWord) (h : mode.IsProper)
    (hno : ∀ front back, t = front ++ (old ++ back) → front.endsInWord = false → back.startsInWord = false →
      mode.behind front ≠ .code) : renameFrom old new mode false 0 t = t := by
  induction t using wordInduction generalizing mode with
  | nil => exact renameFrom_nil old new mode false 0
  | sign c t hc ih =>
    rw [renameFrom_sign hold hc, ih (h.read _ c t)]
    intro front back ht hfront hback
    have hread : mode.read (· == '/') c t = mode.read (· == '/') c front := by
      apply Mode.read_congr
      cases front with
      | cons d front => rw [ht]; rfl
      | nil =>
        obtain ⟨d, name, rfl⟩ := List.exists_cons_of_ne_nil hold.1
        have hd := Mode.ne_slash_of_isIdentChar (hold.2 d List.mem_cons_self)
        by_cases hslash : c = '/'
        · rw [ht, hslash]
          simp only [isDoubled, List.nil_append, List.cons_append, List.head?_cons, List.head?_nil]
          simpa using hd
        · simp only [beq_eq_false_iff_ne.2 hslash, Bool.false_and]
    have hplace := hno (c :: front) back (by rw [ht]; rfl) ?_ hback
    · rwa [Mode.behind_cons, ← hread] at hplace
    · cases front with
      | nil => exact hc
      | cons d front => exact hfront
  | word w t hw ht ih =>
    have hnot : ¬(mode = .code ∧ w = old) := by
      rintro ⟨rfl, rfl⟩
      exact hno [] t rfl rfl ht rfl
    rw [renameFrom_word hold h hw ht, if_neg hnot, ih h.behindWord]
    intro front back htext hfront hback
    cases front with
    | nil =>
      -- The rest of the text does not start within a word.
      rw [htext, List.nil_append, hold.startsInWord_append] at ht
      cases ht
    | cons d front =>
      have hplace := hno (w ++ d :: front) back (by rw [htext, List.append_assoc]) ?_ hback
      · rwa [Mode.behind_word h hw] at hplace
      · rwa [endsInWord, List.getLast?_append_of_ne_nil _ (List.cons_ne_nil d front)]

end RenameFrom

section Places

variable {old new front back s t : Text} {fronts : List Text}

/-- A line of a multiline literal that starts in a text starts where more text follows. -/
theorem Text.HasMultilineLine.append (h : s.HasMultilineLine) (t : Text) : (s ++ t).HasMultilineLine := by
  obtain ⟨front, back, rfl, hfront⟩ := h
  exact ⟨front, back ++ t, by simp, hfront⟩

/-- One that starts behind a text that ends in code starts in both texts. -/
theorem Text.HasMultilineLine.append_front (hs : s.EndsInCode) (h : t.HasMultilineLine) :
    (s ++ t).HasMultilineLine := by
  obtain ⟨front, back, rfl, hfront⟩ := h
  exact ⟨s ++ front, back, by rw [List.append_assoc], by rw [past_append (hs.apart front), hs.1, hfront]⟩

/-- Without such a line a renaming is in the mode in which the searches of the code are. -/
theorem behind_of_not_hasMultilineLine (h : ¬t.HasMultilineLine) : Mode.code.behind t = Mode.code.past t :=
  Mode.behind_eq_past fun front back ht hfront => h ⟨front, back, ht, hfront⟩

/-- A word in code ends in code. -/
theorem Text.IsWord.endsInCode_append {w : Text} (h : w.IsWord) (hfront : Mode.code.past front = .code) :
    (front ++ w).EndsInCode := by
  have hcode (c : Char) (hc : c ∈ w) : isCodeChar c = true :=
    (isPlain_iff.1 (isPlain_of_isIdentChar (h.2 c hc) rfl : isPlain never c = true)).1
  have hword := endsInCode_of_all hcode
  obtain ⟨c, w, rfl⟩ := List.exists_cons_of_ne_nil h.1
  refine ⟨?_, fun d hd => hword.2 d ?_⟩
  · rw [past_append (apart_cons (hcode c List.mem_cons_self)), hfront, hword.1]
  · rwa [List.getLast?_append_of_ne_nil _ (List.cons_ne_nil c w)] at hd

/-- A place of a name behind a text that ends in code is one in the whole text. -/
theorem Text.IsPlace.append_front (h : IsPlace front back) (hs : s.EndsInCode) (hne : front ≠ []) :
    IsPlace (s ++ front) back := by
  refine ⟨?_, h.2.1, ?_⟩
  · rw [endsInWord, List.getLast?_append_of_ne_nil _ hne]
    exact h.1
  · rw [past_append (hs.apart front), hs.1, h.2.2]

variable (hold : old.IsWord)
include hold

/-- A text in which a name has no place is left alone. -/
theorem rename_of_onlyBehind_nil (hline : ¬t.HasMultilineLine) (h : OnlyBehind old t []) : rename t old new = t := by
  rw [rename_eq_renameFrom hold]
  refine renameFrom_eq_self hold Mode.isProper_code fun front back ht hfront hback hcode => ?_
  have hnone : ¬front.HasMultilineLine := fun hsome => hline (ht ▸ hsome.append _)
  rw [behind_of_not_hasMultilineLine hnone] at hcode
  exact List.not_mem_nil (h front back ht ⟨hfront, hback, hcode⟩)

/-- In front of the first place of a name there is none. -/
theorem Text.OnlyBehind.front_of_first (h : OnlyBehind old (front ++ (old ++ t)) fronts) (hplace : IsPlace front t)
    (hfirst : ∀ other ∈ fronts, front.length ≤ other.length) : OnlyBehind old front [] := by
  intro earlier back hearlier hother
  have hback : (back ++ (old ++ t)).startsInWord = false := by
    cases back with
    | cons c back => exact hother.2.1
    | nil =>
      have hend := hplace.1
      rw [hearlier, List.append_nil, endsInWord_append_word hold.2 hold.1] at hend
      cases hend
  -- An earlier place would be one of the whole text, but none of those is shorter.
  have hle := hfirst earlier (h earlier (back ++ (old ++ t)) (by rw [hearlier]; simp only [List.append_assoc])
    ⟨hother.1, hback, hother.2.2⟩)
  have hpos := List.length_pos_iff.2 hold.1
  have hlength := congrArg List.length hearlier
  simp only [List.length_append] at hlength
  omega

/-- Behind the first place of a name are the other ones. -/
theorem Text.OnlyBehind.behind_first (hplace : IsPlace front t)
    (h : OnlyBehind old (front ++ (old ++ t)) (front :: fronts.map fun later => front ++ (old ++ later))) :
    OnlyBehind old t fronts := by
  intro later back ht hlater
  have hne : later ≠ [] := by
    rintro rfl
    have hstart := hplace.2.1
    rw [ht, List.nil_append, hold.startsInWord_append] at hstart
    cases hstart
  have hmem := h (front ++ old ++ later) back (by rw [ht]; simp only [List.append_assoc])
    (hlater.append_front (hold.endsInCode_append hplace.2.2) hne)
  rcases List.mem_cons.1 hmem with hfront | hbehind
  · have hlength := congrArg List.length hfront
    have hpos := List.length_pos_iff.2 hne
    simp only [List.length_append] at hlength
    omega
  · obtain ⟨other, hother, heq⟩ := List.mem_map.1 hbehind
    rw [← List.append_assoc] at heq
    exact List.append_cancel_left heq ▸ hother

/-- A name is replaced at its first place, and the renaming goes on behind it with the other places. -/
theorem rename_of_onlyBehind_cons (hline : ¬(front ++ (old ++ t)).HasMultilineLine) (hplace : IsPlace front t)
    (h : OnlyBehind old (front ++ (old ++ t)) (front :: fronts.map fun later => front ++ (old ++ later)))
    (new : Text) :
    rename (front ++ (old ++ t)) old new = front ++ (new ++ rename t old new) ∧ ¬t.HasMultilineLine ∧
      OnlyBehind old t fronts := by
  have hword := hold.endsInCode_append hplace.2.2
  have hfrontLine : ¬front.HasMultilineLine := fun hsome => hline (hsome.append _)
  refine ⟨?_, fun hsome => hline ?_, h.behind_first hold hplace⟩
  · have hfirst : ∀ other ∈ front :: fronts.map fun later => front ++ (old ++ later),
        front.length ≤ other.length := by
      refine List.forall_mem_cons.2 ⟨Nat.le_refl _, List.forall_mem_map.2 fun later _ => ?_⟩
      rw [List.length_append]
      exact Nat.le_add_right _ _
    have hfront : rename front old new = front :=
      rename_of_onlyBehind_nil hold hfrontLine (h.front_of_first hold hplace hfirst)
    have hslash : front.getLast? = some '/' → (old ++ t).head? ≠ some '/' := by
      obtain ⟨c, name, rfl⟩ := List.exists_cons_of_ne_nil hold.1
      have hc := Mode.ne_slash_of_isIdentChar (hold.2 c List.mem_cons_self)
      exact fun _ hhead => (beq_eq_false_iff_ne.1 hc) (Option.some.inj hhead)
    rw [rename_eq_renameFrom hold] at hfront ⊢
    rw [renameFrom_append hold Mode.isProper_code (fun hend => by rw [hplace.1] at hend; cases hend) hslash, hfront,
      behind_of_not_hasMultilineLine hfrontLine, hplace.2.2,
      renameFrom_word hold Mode.isProper_code hold hplace.2.1, if_pos ⟨rfl, rfl⟩, rename_eq_renameFrom hold]
    rfl
  · rw [← List.append_assoc]
    exact hsome.append_front hword

/-- A word that is the only one in a text that can be at a place of a name is replaced exactly if it is the name and
stands in code. -/
theorem rename_of_onlyBehind_one {word : Text} (hword : word.IsWord) (hfront : front.endsInWord = false)
    (hback : back.startsInWord = false) (hline : ¬(front ++ (word ++ back)).HasMultilineLine)
    (h : OnlyBehind old (front ++ (word ++ back)) [front]) :
    rename (front ++ (word ++ back)) old new =
      if word = old ∧ Mode.code.past front = .code then front ++ (new ++ back) else front ++ (word ++ back) := by
  split
  · next hname =>
    obtain ⟨rfl, hcode⟩ := hname
    have honly : OnlyBehind word (front ++ (word ++ back))
        (front :: ([] : List Text).map fun later => front ++ (word ++ later)) := h
    obtain ⟨hrename, hline', hnone⟩ := rename_of_onlyBehind_cons hold hline ⟨hfront, hback, hcode⟩ honly new
    rw [hrename, rename_of_onlyBehind_nil hold hline' hnone]
  · next hname =>
    refine rename_of_onlyBehind_nil hold hline fun other rest htext hplace => ?_
    obtain rfl := List.mem_singleton.1 (h other rest htext hplace)
    have hlead := congrArg leadingWord (List.append_cancel_left htext)
    rw [hword.leadingWord_append hback, hold.leadingWord_append hplace.2.1] at hlead
    exact absurd ⟨hlead, hplace.2.2⟩ hname

end Places

end ClassFlattening
