import ClassFlattening.Proofs.ComposedRenamings
import ClassFlattening.Proofs.RemarkedMembers
import ClassFlattening.Proofs.RenamedMethods
import ClassFlattening.Proofs.RenamedPlaces

/-!
# Retargeting and renaming a function

Retargeting takes a function apart: it replaces the class in the type of `self` and in the return type and renames
it in the body. Renaming goes through the text as a whole. The name in the type of `self` stands in code, and each
search that takes the function apart stops in code, so the renaming is in code where the body starts. The return
type is searched in its text as it is, and the name that is found there may stand in a comment or in a literal.
A signature that mentions the class nowhere else is retargeted as it is renamed, but for such a return type.
-/

namespace ClassFlattening

open Text

/-- A mentioned name is a word of its own. -/
structure Mention.StandsAlone (m : Mention) : Prop where
  before : m.before.endsInWord = false
  name : m.name.IsWord
  after : m.after.startsInWord = false

section Mentions

variable {t : Text} {m : Mention}

/-- Two texts that end within no word end within none. -/
theorem endsInWord_append_eq_false {s t : Text} (hs : s.endsInWord = false) (ht : t.endsInWord = false) :
    (s ++ t).endsInWord = false := by
  rw [endsInWord_append, hs]
  rw [endsInWord] at ht
  cases hlast : t.getLast? with
  | none => rfl
  | some c => rwa [hlast] at ht

/-- A text of signs ends within no word. -/
theorem endsInWord_of_signs (h : ∀ c ∈ t, isIdentChar c = false) : t.endsInWord = false := by
  rw [endsInWord, Option.any_eq_false]
  intro c hc
  rw [h c (List.mem_of_getLast? hc)]

/-- A blank, a pointer sign and an optional sign are code and no part of a word. -/
theorem code_and_sign_of_indirection {c : Char} (h : (isBlank c || c == '*' || c == '?') = true) :
    isCodeChar c = true ∧ isIdentChar c = false := by
  rw [Bool.or_eq_true, Bool.or_eq_true, beq_iff_eq, beq_iff_eq] at h
  rcases h with (hblank | rfl) | rfl
  · exact ⟨isCodeChar_of_isBlank hblank, isIdentChar_of_isBlank hblank⟩
  · decide
  · decide

/-- What stands in front of a type's name is code, and no word goes on from it. -/
theorem exists_front_of_dropIndirections (t : Text) :
    ∃ front, front ++ dropIndirections t = t ∧ (∀ c ∈ front, isCodeChar c = true) ∧ front.endsInWord = false ∧
      ∀ c ∈ (dropIndirections t).head?, isBlank c = false := by
  have hsigns (t : Text) : ∀ c ∈ t.takeWhile fun c => isBlank c || c == '*' || c == '?',
      isCodeChar c = true ∧ isIdentChar c = false :=
    fun c hc => code_and_sign_of_indirection (List.all_eq_true.1 List.all_takeWhile c hc)
  have hbare (t : Text) : ∀ c ∈ (t.dropWhile fun c => isBlank c || c == '*' || c == '?').head?, isBlank c = false := by
    intro c hc
    have hnot := List.head?_dropWhile_not (fun c => isBlank c || c == '*' || c == '?') t
    rw [hc] at hnot
    simp only [Bool.or_eq_false_iff] at hnot
    exact hnot.1.1
  fun_induction dropIndirections t with
  | case1 t bare c rest hconst hblank ih =>
    obtain ⟨front, hfront, hfrontCode, hfrontEnd, hhead⟩ := ih
    have hne : front ≠ [] := by
      rintro rfl
      rw [List.nil_append] at hfront
      rw [hfront] at hhead
      rw [hhead c rfl] at hblank
      cases hblank
    refine ⟨t.takeWhile (fun c => isBlank c || c == '*' || c == '?') ++ ("const".toList ++ front), ?_, ?_, ?_, hhead⟩
    · rw [List.append_assoc, List.append_assoc, hfront, ← dropLead?_eq_some_iff.1 hconst]
      exact List.takeWhile_append_dropWhile
    · exact List.forall_mem_append.2 ⟨fun c hc => (hsigns t c hc).1,
        List.forall_mem_append.2 ⟨forall_of_all (by decide), hfrontCode⟩⟩
    · rw [endsInWord, ← List.append_assoc, List.getLast?_append_of_ne_nil _ hne]
      exact hfrontEnd
  | case2 t bare c rest hconst hblank =>
    exact ⟨_, List.takeWhile_append_dropWhile, fun c hc => (hsigns t c hc).1,
      endsInWord_of_signs fun c hc => (hsigns t c hc).2, hbare t⟩
  | case3 t bare hconst =>
    exact ⟨_, List.takeWhile_append_dropWhile, fun c hc => (hsigns t c hc).1,
      endsInWord_of_signs fun c hc => (hsigns t c hc).2, hbare t⟩

/-- The name that a type is about is a word of its own behind code. -/
theorem standsAlone_of_typeMention? (h : typeMention? t = some m) :
    m.StandsAlone ∧ ∀ c ∈ m.before, isCodeChar c = true := by
  obtain ⟨front, ht, hcode, hfront, -⟩ := exists_front_of_dropIndirections t
  have htake : t.take (t.length - (dropIndirections t).length) = front := by
    have hwhole := List.suffix_iff_eq_append.1 (ByOffset.dropIndirections_suffix t)
    exact List.append_cancel_right (hwhole.trans ht.symm)
  rw [typeMention?] at h
  split at h
  · cases h
  · next c rest hname =>
    split at h
    · cases h
      rw [htake]
      refine ⟨⟨hfront, ⟨List.cons_ne_nil c rest, fun d hd => ?_⟩, startsInWord_afterLeadingWord _⟩, hcode⟩
      rw [← hname] at hd
      exact List.all_eq_true.1 List.all_takeWhile d hd
    · cases h

/-- The name in the type of `self` is a word of its own behind code. -/
theorem standsAlone_of_selfMention? {params : Text} (h : selfMention? params = some m) :
    m.StandsAlone ∧ ∀ c ∈ m.before, isCodeChar c = true := by
  have hrest : startsInWord (params.drop (((params.cutAtTopLevel? (· == ',')).map Cut.before).getD params).length) =
      false := by
    cases hcut : params.cutAtTopLevel? (· == ',') with
    | none => simp
    | some cut =>
      obtain ⟨_, c, more, hafter, hstop⟩ := exists_stop_of_cutInCode hcut
      have hcomma := eq_of_beq (topLevelVerdict_eq_stop_iff.1 hstop).2
      have hwhole := whole_of_cutInCode _ hcut
      rw [Option.map_some, Option.getD_some, ← hwhole, Cut.whole, List.drop_left, hafter, hcomma]
      rfl
  rw [selfMention?] at h
  generalize ((params.cutAtTopLevel? (· == ',')).map Cut.before).getD params = first at h hrest
  simp only [Option.bind_eq_bind, Option.bind_eq_some_iff] at h
  obtain ⟨called, hcalled, typed, htyped, h⟩ := h
  split at h
  · next hblank =>
    rw [Option.bind_eq_some_iff] at h
    obtain ⟨mention, hmention, h⟩ := h
    cases h
    obtain ⟨halone, hcode⟩ := standsAlone_of_typeMention? hmention
    rw [Bool.and_eq_true] at hblank
    obtain ⟨rest, hafter⟩ := exists_of_cutAtText? hcalled
    rw [hafter, cutAtFirst?_append (forall_of_all (by decide))] at htyped
    obtain ⟨colon, hcolon, rfl⟩ := Option.map_eq_some_iff.1 htyped
    obtain ⟨-, hcolonAfter⟩ := eq_of_cutAtFirst? hcolon
    have hthrough : (⟨"self".toList ++ colon.before, colon.after⟩ : Cut).through =
        "self".toList ++ (colon.before ++ [':']) := by
      rw [Cut.through, hcolonAfter, List.append_assoc]
      rfl
    have hgap : colon.before.allBlank = true := hblank.2
    rw [hthrough]
    refine ⟨⟨endsInWord_append_eq_false ?_ halone.before, halone.name, ?_⟩, ?_⟩
    · rw [← List.append_assoc, ← List.append_assoc, endsInWord, List.getLast?_concat]
      rfl
    · exact startsInWord_append halone.after hrest
    · refine List.forall_mem_append.2 ⟨List.forall_mem_append.2 ⟨isCodeChar_of_allBlank hblank.1, ?_⟩, hcode⟩
      exact List.forall_mem_append.2 ⟨forall_of_all (by decide),
        List.forall_mem_append.2 ⟨isCodeChar_of_allBlank hgap, forall_of_all (by decide)⟩⟩
  · cases h

/-- The name in a return type is a word of its own. -/
theorem standsAlone_of_resultMention? {result : Text} (h : resultMention? result = some m) : m.StandsAlone := by
  rw [resultMention?] at h
  split at h
  · cases h
  · simp only [Option.bind_eq_bind, Option.bind_eq_some_iff] at h
    obtain ⟨mention, hmention, h⟩ := h
    split at h
    · cases h
    · cases h
      obtain ⟨halone, -⟩ := standsAlone_of_typeMention? hmention
      refine ⟨endsInWord_append_eq_false ?_ halone.before, halone.name, halone.after⟩
      -- The payload starts behind an exclamation mark, or at the start of the return type.
      rw [cutAfterLast, endsInWord_reverse, startsInWord]
      have hnot := List.head?_dropWhile_not (fun c => !(c == '!')) result.reverse
      cases hhead : (result.reverse.dropWhile fun c => !(c == '!')).head? with
      | none => rfl
      | some c =>
        rw [hhead] at hnot
        obtain rfl : c = '!' := by simpa using hnot
        rfl

end Mentions

section Searched

variable {σ : Type} {verdict : σ → Char → Verdict σ} {start : σ} {s x front rest : Text} {c : Char}

/-- A search of the code that stops at a character of the code stops in code. -/
theorem past_of_cutInCode (hc : isCodeChar c = true) (hline : c ≠ '\n')
    (h : cutInCode verdict start (s ++ c :: rest) = some ⟨s, c :: rest⟩) : Mode.code.past s = .code := by
  rw [cutInCode_eq_cutWhere] at h
  obtain ⟨next, d, more, hwalk, hafter, hstop⟩ := exists_walk_of_cutWhere h (apart_cons hc)
  obtain ⟨rfl, rfl⟩ := List.cons.inj hafter
  rw [← fst_of_walk hwalk]
  exact eq_code_of_step hline (codeVerdict_eq_stop_iff.1 hstop).1

/-- A bracket is closed in code. -/
theorem past_of_cutAtMatching? {opening closing : Char} (hclosing : isCodeChar closing = true) (hline : closing ≠ '\n')
    (h : cutAtMatching? (opening :: s ++ closing :: rest) opening closing =
      some ⟨opening :: s, closing :: rest⟩) : Mode.code.past (opening :: s) = .code := by
  have hhead : (opening :: s ++ closing :: rest).head? = some opening := rfl
  rw [cutAtMatching?, if_pos hhead] at h
  exact past_of_cutInCode hclosing hline h

/-- The body of a function opens in code. -/
theorem OpensBody.past (h : OpensBody x front s) : Mode.code.past s = .code := by
  induction h with
  | plain hfound _ => exact past_of_cutInCode rfl (by decide) hfound
  | @errorSet front p names q hfound _ hset _ ih =>
    have hp := past_of_cutInCode rfl (by decide) hfound
    have hnames := endsInCode_concat (past_of_cutAtMatching? rfl (by decide) hset) (c := '}') rfl
    have hwhole : '{' :: (names ++ '}' :: q) = ('{' :: names ++ ['}']) ++ q := by simp
    rw [past_append (apart_cons rfl), hp, hwhole, past_append (hnames.apart q), hnames.1, ih]

end Searched

/-- Qualifiers have no signs but blanks. -/
theorem Qualifying.not_mem {words : List Text} {q : Text} {c : Char} (h : Qualifying words q)
    (hwords : ∀ w ∈ words, c ∉ w) (hc : isBlank c = false) : c ∉ q := by
  have hother {d : Char} (hd : isBlank d = true) : c ≠ d := by
    rintro rfl
    rw [hc] at hd
    cases hd
  induction h with
  | nil => exact List.not_mem_nil
  | blank hd _ ih => exact List.not_mem_cons_of_ne_of_not_mem (hother hd) ih
  | word hw hd _ ih =>
    rw [List.mem_append, not_or]
    exact ⟨hwords _ hw, List.not_mem_cons_of_ne_of_not_mem (hother hd) ih⟩

namespace MethodPieces

variable {p : MethodPieces}

/-- The function that the pieces make up, taken apart. -/
def callable (p : MethodPieces) : Callable := ⟨p.upTo [], p.params, p.result, '{' :: p.body ++ ['}']⟩

/-- The parameters open at the first parenthesis of the function. -/
theorem IsRead.ne_of_mem_front (h : p.IsRead) : ∀ c ∈ p.qualifiers ++ p.title, (c == '(') = false := by
  have hqualifiers : '(' ∉ p.qualifiers := h.qualifiers.not_mem (by decide) (by decide)
  exact List.forall_mem_append.2
    ⟨fun c hc => beq_eq_false_iff_ne.2 fun heq => hqualifiers (heq ▸ hc), h.ne_of_mem_title⟩

/-- The text of the pieces is taken apart into them. -/
theorem IsRead.readCallable?_text (h : p.IsRead) : readCallable? p.text = some p.callable := by
  have hopened : cutAtFirst? (· == '(') p.text = some ⟨p.qualifiers ++ p.title,
      '(' :: (p.params ++ ')' :: (p.result ++ '{' :: (p.body ++ ['}'])))⟩ := by
    have htext : p.text =
        p.qualifiers ++ p.title ++ '(' :: (p.params ++ ')' :: (p.result ++ '{' :: (p.body ++ ['}']))) := by
      simp [text, head]
    rw [htext]
    exact cutAtFirst?_self h.ne_of_mem_front rfl
  have hclosed := h.params (p.result ++ '{' :: (p.body ++ ['}']))
  have hresult := (h.result (p.body ++ ['}'])).cutAtBodyOpen?
  rw [List.cons_append] at hclosed
  rw [readCallable?, hopened]
  simp only [Option.bind_eq_bind, Option.bind_some, hclosed]
  change (cutAtBodyOpen? (p.result ++ '{' :: (p.body ++ ['}'])) p.head.reverse).bind _ = _
  rw [hresult]
  simp [callable, upTo, Cut.through]

/-- The parameters of a function start in code. -/
theorem IsRead.endsInCode_upTo_nil (h : p.IsRead) : (p.upTo []).EndsInCode :=
  h.endsInCode (show allBlank [] = true from rfl)

/-- The signature of a function ends in code. -/
theorem IsRead.past_signature (h : p.IsRead) : Mode.code.past p.callable.signature = .code := by
  have hhead := h.endsInCode_upTo_nil
  have hopened := past_of_cutAtMatching? rfl (by decide) (h.params [])
  rw [Mode.past, step_of_isCodeChar (by decide)] at hopened
  have hparams := endsInCode_concat hopened (c := ')') rfl
  have hsignature : p.callable.signature = p.upTo [] ++ ((p.params ++ [')']) ++ p.result) := by
    simp [callable, Callable.signature]
  rw [hsignature, past_append (hhead.apart _), hhead.1, past_append (hparams.apart _), hparams.1, (h.result []).past]

end MethodPieces

namespace Callable

/-- The text of a function in front of the name in its return type. -/
def upToResult (f : Callable) (mention : Mention) : Text := f.head ++ (f.params ++ ')' :: mention.before)

/-- The signature mentions the name in the type of `self` there, perhaps in the return type, and nowhere else. -/
def MentionsOnly (f : Callable) (self : Mention) : Prop :=
  OnlyBehind self.name f.signature ((f.head ++ self.before) :: (resultMention? f.result).toList.map f.upToResult)

instance (f : Callable) (self : Mention) : Decidable (f.MentionsOnly self) :=
  inferInstanceAs (Decidable (OnlyBehind _ _ _))

end Callable

/-- Where a name can only be at the place of the name in a return type, renaming replaces that one exactly if it is the
same and stands in code. -/
theorem rename_result {old front result : Text} (hold : old.IsWord) (hfront : front.endsInWord = false)
    (hline : ¬(front ++ result).HasMultilineLine)
    (honly : OnlyBehind old (front ++ result)
      ((resultMention? result).toList.map fun mention => front ++ mention.before)) (name : Text) :
    rename (front ++ result) old name = front ++
      match resultMention? result with
      | some mention =>
        if mention.name = old ∧ Mode.code.past (front ++ mention.before) = .code then mention.replace name else result
      | none => result := by
  cases hmention : resultMention? result with
  | none =>
    rw [hmention] at honly
    exact rename_of_onlyBehind_nil hold hline honly
  | some mention =>
    have hwhole := ByOffset.whole_of_resultMention? hmention
    obtain ⟨hbefore, hname, hafter⟩ := standsAlone_of_resultMention? hmention
    have hsplit : front ++ result = front ++ mention.before ++ (mention.name ++ mention.after) := by
      rw [← hwhole, Mention.whole]
      simp only [List.append_assoc]
    rw [hmention] at honly
    rw [hsplit] at honly hline ⊢
    rw [rename_of_onlyBehind_one hold hname (endsInWord_append_eq_false hfront hbefore) hafter hline honly]
    dsimp only
    split
    · simp only [Mention.replace, List.append_assoc]
    · exact hsplit.symm

namespace MethodPieces

variable {p : MethodPieces} {self : Mention}

/-- The name in the type of `self` stands at a place of its own. -/
theorem IsRead.isPlace_self (h : p.IsRead) (hself : selfMention? p.params = some self) (t : Text) :
    IsPlace (p.upTo [] ++ self.before) (self.after ++ ')' :: t) := by
  obtain ⟨halone, hcode⟩ := standsAlone_of_selfMention? hself
  refine ⟨endsInWord_append_eq_false ?_ halone.before, startsInWord_append halone.after rfl, ?_⟩
  · rw [upTo, ← List.append_assoc, endsInWord, List.getLast?_concat]
    rfl
  · exact (h.endsInCode_upTo_nil.append (endsInCode_of_all hcode)).1

/-- Renaming the signature replaces the name in the type of `self`, and the one in the return type where it is the
same and stands in code. -/
theorem IsRead.rename_signature (h : p.IsRead) (hself : selfMention? p.params = some self)
    (hline : ¬p.callable.signature.HasMultilineLine) (honly : p.callable.MentionsOnly self) (name : Text) :
    rename p.callable.signature self.name name =
      p.upTo [] ++ (self.replace name ++ ')' ::
        match resultMention? p.result with
        | some mention =>
          if mention.name = self.name ∧ Mode.code.past (p.callable.upToResult mention) = .code then
            mention.replace name
          else p.result
        | none => p.result) := by
  obtain ⟨halone, -⟩ := standsAlone_of_selfMention? hself
  have hplace := h.isPlace_self hself p.result
  have hsplit (t : Text) : p.upTo [] ++ (p.params ++ ')' :: t) =
      p.upTo [] ++ self.before ++ (self.name ++ (self.after ++ [')'] ++ t)) := by
    rw [← ByOffset.whole_of_selfMention? hself, Mention.whole]
    simp only [List.append_assoc, List.singleton_append]
  have hsignature : p.callable.signature =
      p.upTo [] ++ self.before ++ (self.name ++ (self.after ++ [')'] ++ p.result)) := hsplit p.result
  have hfronts :
      (p.callable.head ++ self.before) :: (resultMention? p.callable.result).toList.map p.callable.upToResult =
        (p.upTo [] ++ self.before) ::
          ((resultMention? p.result).toList.map fun mention => self.after ++ [')'] ++ mention.before).map
            fun later => p.upTo [] ++ self.before ++ (self.name ++ later) := by
    rw [List.map_map]
    exact congrArg (_ :: ·) (List.map_congr_left fun mention _ => hsplit mention.before)
  have hpast (mention : Mention) :
      Mode.code.past (self.after ++ [')'] ++ mention.before) = Mode.code.past (p.callable.upToResult mention) := by
    have hname := halone.name.endsInCode_append hplace.2.2
    have hupTo : p.callable.upToResult mention =
        p.upTo [] ++ self.before ++ self.name ++ (self.after ++ [')'] ++ mention.before) :=
      (hsplit mention.before).trans (List.append_assoc _ _ _).symm
    rw [hupTo, past_append (hname.apart _), hname.1]
  rw [List.append_cons self.after ')' p.result] at hplace
  rw [Callable.MentionsOnly, hfronts, hsignature] at honly
  rw [hsignature] at hline
  obtain ⟨hrename, hrest, hresult⟩ := rename_of_onlyBehind_cons halone.name hline hplace honly name
  have hend : endsInWord (self.after ++ [')']) = false := by
    rw [endsInWord, List.getLast?_concat]
    rfl
  rw [hsignature, hrename, rename_result halone.name hend hrest hresult]
  simp only [hpast]
  simp only [Mention.replace, List.append_assoc, List.singleton_append]

/-- The body is renamed apart from the signature. -/
theorem IsRead.rename_text (h : p.IsRead) {old : Text} (hold : old.IsWord)
    (hline : ¬p.callable.signature.HasMultilineLine) (name : Text) :
    rename p.text old name = rename p.callable.signature old name ++ rename p.callable.body old name := by
  have hparted : Parted p.callable.signature p.callable.body :=
    parted_of_startsInWord (by decide : isIdentChar '{' = false)
  have hslash : p.callable.body.head? ≠ some '/' := (by decide : some '{' ≠ some '/')
  rw [← ByOffset.signature_append_body h.readCallable?_text, rename_eq_renameFrom hold, rename_eq_renameFrom hold,
    rename_eq_renameFrom hold, renameFrom_append hold Mode.isProper_code hparted fun _ => hslash,
    behind_of_not_hasMultilineLine hline, h.past_signature]

/-- Retargeting replaces the name in the type of `self`, the one in the return type where it is the same, and the
name in the body. -/
theorem IsRead.retarget_text (h : p.IsRead) (hself : selfMention? p.params = some self) (name : Text) :
    retarget p.text self.name name =
      p.upTo [] ++ (self.replace name ++ ')' ::
        match resultMention? p.result with
        | some mention => if mention.name = self.name then mention.replace name else p.result
        | none => p.result) ++ rename p.callable.body self.name name := by
  rw [retarget, h.readCallable?_text]
  dsimp only [callable]
  rw [hself]
  cases resultMention? p.result with
  | none => simp
  | some mention =>
    by_cases hname : mention.name = self.name
    · simp [hname]
    · simp [hname, Ne.symm hname]

end MethodPieces

/-- Retargeting the source of a function to the class that it is written for changes nothing. Where no line of a
multiline literal starts in its signature and the signature mentions the class in the type of `self` and
perhaps in the return type only, retargeting it is renaming the class, unless the return type that is
found does not stand in code: renaming leaves that one alone. -/
theorem Member.retarget_source {t rest : Text} {m : Method} (h : Member.read t = (.method m, rest)) :
    ∃ f, readCallable? m.source = some f ∧ ∀ self, selfMention? f.params = some self →
      retarget m.source self.name self.name = m.source ∧
        (¬f.signature.HasMultilineLine → f.MentionsOnly self → ∀ name,
          (retarget m.source self.name name = rename m.source self.name name ↔
            name = self.name ∨ ∀ mention, resultMention? f.result = some mention → mention.name = self.name →
              Mode.code.past (f.upToResult mention) = .code)) := by
  obtain ⟨p, hread, rfl, rfl⟩ := Member.read_eq_method_iff.1 h
  refine ⟨p.callable, hread.readCallable?_text, fun self hself => ?_⟩
  obtain ⟨halone, -⟩ := standsAlone_of_selfMention? hself
  refine ⟨?_, fun hline honly name => ?_⟩
  · have hparams : self.replace self.name = p.params :=
      (List.append_assoc _ _ _).trans (ByOffset.whole_of_selfMention? hself)
    have hresult : (match resultMention? p.result with
        | some mention => if mention.name = self.name then mention.replace self.name else p.result
        | none => p.result) = p.result := by
      cases hmention : resultMention? p.result with
      | none => rfl
      | some mention =>
        refine ite_eq_right_iff.2 fun hname => ?_
        rw [← hname]
        exact (List.append_assoc _ _ _).trans (ByOffset.whole_of_resultMention? hmention)
    change retarget p.text self.name self.name = p.text
    rw [hread.retarget_text hself, hparams, hresult, rename_self halone.name]
    exact ByOffset.signature_append_body hread.readCallable?_text
  · have hrename := hread.rename_text halone.name hline name
    rw [hread.rename_signature hself hline honly] at hrename
    change retarget p.text self.name name = rename p.text self.name name ↔ _
    rw [hrename, hread.retarget_text hself, List.append_left_inj, List.append_right_inj, List.append_right_inj,
      List.cons_inj_right]
    change _ ↔ name = self.name ∨ ∀ mention, resultMention? p.result = some mention → _
    cases hmention : resultMention? p.result with
    | none => simp
    | some mention =>
      have hwhole := ByOffset.whole_of_resultMention? hmention
      by_cases hname : mention.name = self.name
      · by_cases hcode : Mode.code.past (p.callable.upToResult mention) = .code
        · simp [hname, hcode]
        · -- Only retargeting replaces the name.
          have hreplace : mention.replace name = p.result ↔ name = self.name := by
            rw [← hwhole, Mention.whole, Mention.replace, List.append_assoc, List.append_right_inj,
              List.append_left_inj, hname]
          simp [hname, hcode, hreplace]
      · simp [hname]

/-- A constructor that returns its class or an error. -/
def unionInit : Method where
  name := "init".toList
  source := "fn init(self: *const A, x: u8) error\x7bE\x7d!A \x7b return A\x7b\x7d; \x7d".toList
  signature := "fn init(self: *const A, x: u8) error\x7bE\x7d!A".toList
  returnType := "error\x7bE\x7d!A".toList
  isStatic := false

/-- The constructor taken apart. -/
def unionCallable : Callable where
  head := "fn init(".toList
  params := "self: *const A, x: u8".toList
  result := " error\x7bE\x7d!A ".toList
  body := "\x7b return A\x7b\x7d; \x7d".toList

/-- The type of `self` in the constructor. -/
def unionSelf : Mention := ⟨"self: *const ".toList, "A".toList, ", x: u8".toList⟩

/-- Retargeting the constructor is renaming the class. -/
theorem retarget_source_union :
    Member.read unionInit.source = (.method unionInit, []) ∧
      readCallable? unionInit.source = some unionCallable ∧ selfMention? unionCallable.params = some unionSelf ∧
      ¬unionCallable.signature.HasMultilineLine ∧ unionCallable.MentionsOnly unionSelf ∧
      retarget unionInit.source "A".toList "A".toList = unionInit.source ∧
      retarget unionInit.source "A".toList "B".toList =
        rename unionInit.source "A".toList "B".toList := by
  have hread : Member.read unionInit.source = (.method unionInit, []) := by decide +kernel
  have hcallable : readCallable? unionInit.source = some unionCallable := by decide +kernel
  have hself : selfMention? unionCallable.params = some unionSelf := by decide +kernel
  have hline : ¬unionCallable.signature.HasMultilineLine := not_hasMultilineLine_of_not_mem (by decide)
  have honly : unionCallable.MentionsOnly unionSelf := by decide +kernel
  have hcode : ∀ mention, resultMention? unionCallable.result = some mention → mention.name = unionSelf.name →
      Mode.code.past (unionCallable.upToResult mention) = .code := by decide +kernel
  obtain ⟨f, hf, hretarget⟩ := Member.retarget_source hread
  cases hf.symm.trans hcallable
  obtain ⟨hsame, hrename⟩ := hretarget unionSelf hself
  exact ⟨hread, hcallable, hself, hline, honly, hsame, (hrename hline honly "B".toList).2 (.inr hcode)⟩

/-- A constructor with a comment behind its return type. -/
def remarkedInit : Method where
  name := "init".toList
  source := "fn init(self: *A) u8 // or !A\n\x7b\n\x7d".toList
  signature := "fn init(self: *A) u8 // or !A".toList
  returnType := "u8 // or !A".toList
  isStatic := false

/-- The constructor taken apart: its return type is found in the comment. -/
def remarkedCallable : Callable where
  head := "fn init(".toList
  params := "self: *A".toList
  result := " u8 // or !A\n".toList
  body := "\x7b\n\x7d".toList

/-- Retargeting replaces the name in the comment, renaming leaves it alone. -/
theorem retarget_ne_rename_remarked :
    Member.read remarkedInit.source = (.method remarkedInit, []) ∧
      readCallable? remarkedInit.source = some remarkedCallable ∧
      selfMention? remarkedCallable.params = some ⟨"self: *".toList, "A".toList, []⟩ ∧
      ¬remarkedCallable.signature.HasMultilineLine ∧
      remarkedCallable.MentionsOnly ⟨"self: *".toList, "A".toList, []⟩ ∧
      retarget remarkedInit.source "A".toList "B".toList = "fn init(self: *B) u8 // or !B\n\x7b\n\x7d".toList ∧
      rename remarkedInit.source "A".toList "B".toList = "fn init(self: *B) u8 // or !A\n\x7b\n\x7d".toList :=
  ⟨by decide +kernel, by decide +kernel, by decide +kernel, not_hasMultilineLine_of_not_mem (by decide),
    by decide +kernel, by decide +kernel, by decide +kernel⟩

end ClassFlattening
