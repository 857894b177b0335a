import ClassFlattening.Proofs.RenamedParts
import ClassFlattening.Proofs.Respelling

/-!
# Renaming twice

A name that is replaced by a word leaves the parts of a text where they are: no literal or comment begins or
ends anywhere else, and the runs of the code are the same but for the name. So a text in which a word is new
can be renamed to it and from there to anything, as if it had been renamed at once, and back.
-/

namespace ClassFlattening

open Text

/-- The runs of a part if it is code. -/
def Part.runs : Part → List Text
  | code text => text.runs
  | literal _ | comment _ => []

/-- The runs of the code of a text. -/
def Text.codeRuns (t : Text) : List Text := t.parts.flatMap Part.runs

/-- The runs of the code come part by part. -/
theorem Text.codeRuns_cons (c : Char) (rest : Text) :
    codeRuns (c :: rest) = (firstPart (c :: rest)).1.runs ++ codeRuns (firstPart (c :: rest)).2 := by
  rw [codeRuns, parts, List.flatMap_cons, codeRuns]

section Literals

variable {quote c : Char} {t rest : Text}

/-- The character behind a backslash is passed in a literal. -/
theorem Text.cutLiteral_escape (quote c : Char) (t : Text) :
    cutLiteral quote ('\\' :: c :: t) =
      ⟨'\\' :: c :: (cutLiteral quote t).before, (cutLiteral quote t).after⟩ := by
  rw [cutLiteral, if_pos rfl]

/-- A literal ends behind its quote or the newline. -/
theorem Text.cutLiteral_end (hc : c ≠ '\\') (hend : c = quote ∨ c = '\n') (t : Text) :
    cutLiteral quote (c :: t) = ⟨[c], t⟩ := by
  cases t with
  | nil => rfl
  | cons d t => rw [cutLiteral, if_neg hc, if_pos hend]

/-- A literal goes on behind any other character. -/
theorem Text.cutLiteral_pass (hc : c ≠ '\\') (hend : ¬(c = quote ∨ c = '\n')) (t : Text) :
    cutLiteral quote (c :: t) = ⟨c :: (cutLiteral quote t).before, (cutLiteral quote t).after⟩ := by
  cases t with
  | nil => rfl
  | cons d t => rw [cutLiteral, if_neg hc, if_neg hend]

/-- A literal is the same whatever stands behind it, unless it is open. -/
theorem Text.cutLiteral_append (t : Text) (h : (cutLiteral quote t).after = [] → rest = []) :
    cutLiteral quote ((cutLiteral quote t).before ++ rest) = ⟨(cutLiteral quote t).before, rest⟩ := by
  fun_induction cutLiteral quote t with
  | case1 d t ih =>
    have hrest := ih h
    rw [List.cons_append, List.cons_append, cutLiteral_escape, hrest]
  | case2 c d t hc hend => exact cutLiteral_end hc hend rest
  | case3 c d t hc hend ih =>
    have hrest := ih h
    rw [List.cons_append, cutLiteral_pass hc hend, hrest]
  | case4 t ht =>
    obtain rfl := h rfl
    rw [List.append_nil]
    cases t with
    | nil => rfl
    | cons c t =>
      cases t with
      | nil => rfl
      | cons d t => exact absurd rfl (ht c d t)

end Literals

section Runs

variable {old new s t : Text}

/-- The runs of a text with a name replaced are its runs with the name replaced. -/
theorem Text.runs_replaceRuns (hold : old.IsWord) (hnew : new.IsWord) (t : Text) :
    (t.replaceRuns old new).runs = t.runs.map fun run => if run = old then new else run := by
  -- A name and the word in its place have characters of identifiers at both ends.
  have hhead : ∀ run : Text, ∀ hrun : run ≠ [], ∃ h : (if run = old then new else run) ≠ [],
      isIdentChar ((if run = old then new else run).head h) = isIdentChar (run.head hrun) := by
    intro run hrun
    split
    · next h =>
      subst h
      exact ⟨hnew.1, (hnew.2 _ (List.head_mem _)).trans (hold.2 _ (List.head_mem _)).symm⟩
    · exact ⟨hrun, rfl⟩
  have hlast : ∀ run : Text, ∀ hrun : run ≠ [], ∃ h : (if run = old then new else run) ≠ [],
      isIdentChar ((if run = old then new else run).getLast h) = isIdentChar (run.getLast hrun) := by
    intro run hrun
    split
    · next h =>
      subst h
      exact ⟨hnew.1, (hnew.2 _ (List.getLast_mem _)).trans (hold.2 _ (List.getLast_mem _)).symm⟩
    · exact ⟨hrun, rfl⟩
  rw [replaceRuns, List.flatMap_def]
  apply List.splitBy_flatten
  · rw [List.mem_map]
    rintro ⟨run, hmem, hnil⟩
    exact (hhead run (List.ne_nil_of_mem_splitBy hmem)).1 hnil
  · intro run' hmem
    obtain ⟨run, hrun, rfl⟩ := List.mem_map.1 hmem
    split
    · refine List.Pairwise.isChain (List.pairwise_of_forall_mem_list fun c hc d hd => ?_)
      rw [hnew.2 c hc, hnew.2 d hd, beq_self_eq_true]
    · exact List.isChain_of_mem_splitBy hrun
  · refine (List.isChain_map _).2 ((List.isChain_getLast_head_splitBy _ t).imp ?_)
    rintro a b ⟨ha, hb, hdiffer⟩
    obtain ⟨ha', hlast⟩ := hlast a ha
    obtain ⟨hb', hhead⟩ := hhead b hb
    exact ⟨ha', hb', by rw [hlast, hhead]; exact hdiffer⟩

/-- A word that is no run is as good as the name that it stands for. -/
theorem Text.replaceRuns_replaceRuns (hold : old.IsWord) (hnew : new.IsWord) (hfree : new ∉ t.runs)
    (newest : Text) : (t.replaceRuns old new).replaceRuns new newest = t.replaceRuns old newest := by
  rw [replaceRuns, runs_replaceRuns hold hnew, replaceRuns, List.flatMap_def, List.flatMap_def, List.map_map]
  congr 1
  refine List.map_congr_left fun run hrun => ?_
  have hne : run ≠ new := fun heq => hfree (heq ▸ hrun)
  rw [Function.comp_apply]
  by_cases h : run = old
  · rw [if_pos h, if_pos rfl, if_pos h]
  · rw [if_neg h, if_neg hne, if_neg h]

/-- A name replaced by itself is left alone. -/
theorem Text.replaceRuns_self (t old : Text) : t.replaceRuns old old = t := by
  have hid : (fun run : Text => if run = old then old else run) = id := by
    funext run
    split
    · next h => exact h.symm
    · rfl
  rw [replaceRuns, hid, List.flatMap_id, runs, List.flatten_splitBy]

/-- Code is code with a word replaced by another. -/
theorem Respelled.isCode (h : Respelled old new s t) (hs : s.IsCode) : t.IsCode := by
  induction h with
  | nil => exact hs
  | @sign c s t hc rest ih =>
    obtain ⟨⟨hquote, hcomment⟩, hs⟩ := isCode_cons.1 hs
    refine isCode_cons.2 ⟨⟨hquote, ?_⟩, ih hs⟩
    rw [Bool.eq_false_iff] at hcomment ⊢
    intro hstarts
    obtain ⟨more, hmore⟩ := startsComment_iff.1 hstarts
    obtain ⟨rfl, rfl⟩ := List.cons.inj hmore
    obtain ⟨s, rfl, -⟩ := rest.symm.exists_of_sign hc
    exact hcomment rfl
  | word hv hw _ _ _ _ ih => exact (isCode_append hw.2).2 (ih ((isCode_append hv.2).1 hs))

end Runs

section Rename

variable {old new s t : Text}

/-- A renamed text is spelt like the text. -/
theorem respelled_rename (hold : old.IsWord) (hnew : new.IsWord) (t : Text) :
    Respelled old new t (rename t old new) := by
  rw [rename_eq_renameFrom hold]
  exact .renameFrom hold hnew Mode.isProper_code t

/-- Code with a name replaced is spelt like the code. -/
theorem respelled_replaceRuns (hold : old.IsWord) (hnew : new.IsWord) (h : t.IsCode) :
    Respelled old new t (t.replaceRuns old new) := by
  rw [← renameFrom_of_isCode hold h]
  exact .renameFrom hold hnew Mode.isProper_code t

/-- Nothing comes of nothing. -/
theorem rename_nil (hold : old.IsWord) (new : Text) : rename [] old new = [] := by
  rw [rename_eq_renameFrom hold, renameFrom_nil]

/-- What is renamed starts with a literal or a comment if the text does. -/
theorem cutCode_rename (hold : old.IsWord) (hnew : new.IsWord) (h : t.cutCode = ⟨[], t⟩) :
    (rename t old new).cutCode = ⟨[], rename t old new⟩ := by
  cases t with
  | nil => rw [rename_nil hold]; rfl
  | cons c t =>
    have hspelt := respelled_rename hold hnew (c :: t)
    obtain ⟨t', ht', hrest⟩ := hspelt.exists_of_sign (startsInWord_of_cutCode h)
    have hstarts : (isQuote c || startsComment (c :: t)) = true := by
      by_contra hcode
      rw [cutCode, if_neg hcode] at h
      exact List.cons_ne_nil _ _ (congrArg Cut.before h)
    rw [ht', cutCode, if_pos]
    rw [Bool.or_eq_true] at hstarts ⊢
    refine hstarts.imp_right fun hcomment => ?_
    obtain ⟨more, hmore⟩ := startsComment_iff.1 hcomment
    obtain ⟨rfl, rfl⟩ := List.cons.inj hmore
    obtain ⟨more', rfl, -⟩ := hrest.exists_of_sign (by decide)
    exact startsComment_iff.2 ⟨more', rfl⟩

/-- A text that starts with code has it as its first part. -/
theorem firstPart_of_cutCode {cut : Cut} (hcut : t.cutCode = cut) (hne : cut.before ≠ []) :
    t.firstPart = (.code cut.before, cut.after) := by
  subst hcut
  cases t with
  | nil => exact absurd rfl hne
  | cons c t =>
    have hcode : ¬(isQuote c || startsComment (c :: t)) = true := by
      intro hstarts
      rw [cutCode, if_pos hstarts] at hne
      exact hne rfl
    rw [Bool.or_eq_true, not_or] at hcode
    rw [firstPart, if_neg hcode.1, if_neg hcode.2]

/-- A text that starts with a comment has it as its first part, up to the end of its line. -/
theorem firstPart_of_startsComment (hs : s.startsComment = true) (hline : ∀ c ∈ s, (c != '\n') = true)
    (ht : ∀ c ∈ t.head?, c = '\n') : (s ++ t).firstPart = (.comment s, t) := by
  obtain ⟨more, rfl⟩ := startsComment_iff.1 hs
  have htake : t.takeWhile (· != '\n') = [] := by
    cases t with
    | nil => rfl
    | cons c t => exact List.takeWhile_cons_of_neg (by simp [ht c rfl])
  have hdrop : t.dropWhile (· != '\n') = t := by
    cases t with
    | nil => rfl
    | cons c t => exact List.dropWhile_cons_of_neg (by simp [ht c rfl])
  have hstarts : startsComment ('/' :: ('/' :: more ++ t)) = true := startsComment_append hs t
  rw [List.cons_append, firstPart, if_neg (by decide), if_pos hstarts, ← List.cons_append,
    List.takeWhile_append_of_pos hline, htake, List.append_nil, List.dropWhile_append_of_pos hline, hdrop]

/-- No two slashes meet between texts with a name replaced if none do between the texts. -/
theorem Respelled.head?_ne_slash {s t u v : Text} (hfront : Respelled old new s u) (hback : Respelled old new t v)
    (h : s.getLast? = some '/' → t.head? ≠ some '/') : u.getLast? = some '/' → v.head? ≠ some '/' := by
  intro hlast hhead
  have hsign : isIdentChar '/' = false := by decide
  have hlast' := hfront.reverse.head?_beq hsign
  have hhead' := hback.head?_beq hsign
  rw [List.head?_reverse, List.head?_reverse, hlast, beq_self_eq_true, beq_iff_eq] at hlast'
  rw [hhead, beq_self_eq_true, beq_iff_eq] at hhead'
  exact h hlast' hhead'

/-- The first part of a renamed text is the first part with the name replaced. -/
theorem firstPart_rename (hold : old.IsWord) (hnew : new.IsWord) (t : Text) :
    (rename t old new).firstPart = (t.firstPart.1.rename old new, rename t.firstPart.2 old new) := by
  rw [rename_firstPart hold]
  cases t with
  | nil => rw [firstPart, rename_nil hold]; rfl
  | cons c rest =>
    rw [firstPart]
    split
    · next hquote =>
      have hopen : (cutLiteral c rest).after = [] → rename (cutLiteral c rest).after old new = [] :=
        fun hnil => hnil ▸ rename_nil hold new
      change firstPart (c :: ((cutLiteral c rest).before ++ _)) = _
      rw [firstPart, if_pos hquote, cutLiteral_append rest hopen]
      rfl
    · split
      · next hquote hcomment =>
        have hstarts : startsComment ((c :: rest).takeWhile (· != '\n')) = true := by
          obtain ⟨more, hmore⟩ := startsComment_iff.1 hcomment
          rw [hmore]
          exact startsComment_iff.2 ⟨_, rfl⟩
        refine firstPart_of_startsComment hstarts (fun d hd => List.all_eq_true.1 List.all_takeWhile d hd) ?_
        cases hend : (c :: rest).dropWhile (· != '\n') with
        | nil => simp [rename_nil hold]
        | cons d more =>
          have hd : d = '\n' := by
            have hnot := List.head?_dropWhile_not (· != '\n') (c :: rest)
            rw [hend] at hnot
            simpa using hnot
          subst hd
          obtain ⟨more', hmore', -⟩ := (respelled_rename hold hnew ('\n' :: more)).exists_of_sign (by decide)
          simp [hmore']
      · next hquote hcomment =>
        have hspelt := respelled_replaceRuns hold hnew (isCode_cutCode (c :: rest))
        have hbehind := respelled_rename hold hnew (cutCode (c :: rest)).after
        have hne : (cutCode (c :: rest)).before ≠ [] := by
          rw [cutCode, if_neg (by simp [hquote, hcomment])]
          exact List.cons_ne_nil _ _
        have hslash := hspelt.head?_ne_slash hbehind (getLast?_cutCode _)
        have hcut := cutCode_append (hspelt.isCode (isCode_cutCode (c :: rest)))
          (cutCode_rename hold hnew (cutCode_after (c :: rest))) hslash
        have hne' : ((cutCode (c :: rest)).before.replaceRuns old new) ≠ [] := by
          rw [← List.isEmpty_eq_false_iff, ← hspelt.isEmpty_eq, List.isEmpty_eq_false_iff]
          exact hne
        exact firstPart_of_cutCode hcut hne'

/-- A part with a name replaced twice. -/
theorem Part.rename_rename {part : Part} (hold : old.IsWord) (hnew : new.IsWord) (hfree : new ∉ part.runs)
    (newest : Text) : (part.rename old new).rename new newest = part.rename old newest := by
  cases part with
  | code text => exact congrArg Part.code (replaceRuns_replaceRuns hold hnew hfree newest)
  | literal text => rfl
  | comment text => rfl

/-- A name replaced by itself is left alone. -/
theorem rename_self (hold : old.IsWord) (t : Text) : rename t old old = t := by
  fun_induction parts t with
  | case1 => exact rename_nil hold old
  | case2 c rest ih =>
    have hsame : ((firstPart (c :: rest)).1.rename old old).text = (firstPart (c :: rest)).1.text := by
      cases (firstPart (c :: rest)).1 with
      | code text => exact replaceRuns_self text old
      | literal text => rfl
      | comment text => rfl
    rw [rename_firstPart hold, ih, hsame, text_firstPart_append]

/-- A name replaced by a word that is no run of the code, and that word by anything, is the name replaced at
once. If the word is replaced by the name again, the text is what it was. -/
theorem rename_rename_of_not_mem (hold : old.IsWord) (hnew : new.IsWord) (hfree : new ∉ t.codeRuns)
    (newest : Text) :
    rename (rename t old new) new newest = rename t old newest ∧ rename (rename t old new) new old = t := by
  have hat_once (newest : Text) : rename (rename t old new) new newest = rename t old newest := by
    fun_induction parts t with
    | case1 => rw [rename_nil hold, rename_nil hold, rename_nil hnew]
    | case2 c rest ih =>
      rw [codeRuns_cons, List.mem_append, not_or] at hfree
      rw [rename_firstPart hnew, firstPart_rename hold hnew, Part.rename_rename hold hnew hfree.1,
        ih hfree.2, ← rename_firstPart hold]
  exact ⟨hat_once newest, (hat_once old).trans (rename_self hold t)⟩

/-- A source with a word in a longer one, in a literal and in a comment. -/
def sheltering : Text := "A\x7b .b = AB \x7d // B\n++ \"B\\\"B\" ++ A".toList

/-- The word is no run of its code, so the name can be replaced by it and again. -/
theorem rename_rename_sheltering :
    IsWord "A".toList ∧ IsWord "B".toList ∧ "B".toList ∉ sheltering.codeRuns ∧
      rename sheltering "A".toList "B".toList = "B\x7b .b = AB \x7d // B\n++ \"B\\\"B\" ++ B".toList ∧
      rename (rename sheltering "A".toList "B".toList) "B".toList "base.C".toList =
        rename sheltering "A".toList "base.C".toList ∧
      rename (rename sheltering "A".toList "B".toList) "B".toList "A".toList = sheltering := by
  have hold : IsWord "A".toList := ⟨by decide, forall_of_all (by decide)⟩
  have hnew : IsWord "B".toList := ⟨by decide, forall_of_all (by decide)⟩
  have hfree : "B".toList ∉ sheltering.codeRuns := by decide +kernel
  exact ⟨hold, hnew, hfree, by decide, rename_rename_of_not_mem hold hnew hfree "base.C".toList⟩

end Rename

end ClassFlattening
