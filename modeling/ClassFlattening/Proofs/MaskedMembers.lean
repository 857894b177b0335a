import ClassFlattening.Proofs.MaskedLiterals

/-!
# Members of a body with masked literals

Each reader is followed through a text and the same text with its literals masked. What is read from both is of
one kind, and the text behind it is the same but for the mask, unless the reader stops at a sign that stands in a
literal: the brace that a block is looked for at, and the sign of equality of a binding, are searched as they
stand in the text. A member that makes no sense ends with its line, wherever the line ends.
-/

namespace ClassFlattening

open Text

section Brackets

variable {t : Text} {cut : Cut} {c : Char} {opening closing : Char} {ends : Char → Bool}

/-- A masked text starts with the character that the text starts with. -/
theorem head?_mask (t : Text) : (Mode.code.mask t).head? = t.head? := by
  cases t with
  | nil => rfl
  | cons c t => rw [Mode.mask, Mode.shown_of_not_isLiteral rfl]; rfl

/-- A search outside all brackets finds in the masked text what it finds in the text. -/
theorem cutAtTopLevel?_mask (ends : Char → Bool) (t : Text) :
    (Mode.code.mask t).cutAtTopLevel? ends = (t.cutAtTopLevel? ends).map (Cut.mask .code) := by
  rw [cutAtTopLevel?, cutAtTopLevel?, cutInCode_eq_cutWhere, cutInCode_eq_cutWhere]
  exact cutWhere_mask trivial

/-- Brackets match in the masked text as they do in the text. -/
theorem cutAtMatching?_mask (t : Text) (opening closing : Char) :
    (Mode.code.mask t).cutAtMatching? opening closing = (t.cutAtMatching? opening closing).map (Cut.mask .code) := by
  rw [cutAtMatching?, cutAtMatching?, head?_mask]
  split
  · rw [cutInCode_eq_cutWhere, cutInCode_eq_cutWhere]
    exact cutWhere_mask trivial
  · rfl

/-- A cut in front of a character of the code that is no newline. -/
structure CutsCode (cut : Cut) (c : Char) : Prop where
  after : cut.after = c :: cut.behind
  before : Mode.code.past cut.before = .code
  line : isLineStart c = false
  behind : Mode.code.step c cut.behind = (true, .code)

/-- A character of the code that is no newline is read as code. -/
theorem eq_code_of_isCode {mode : Mode} (hmode : mode.IsQuoting) (h : (mode.step c t).1 = true) (hc : c ≠ '\n') :
    mode = .code := by
  cases mode with
  | code => rfl
  | quoted quote =>
    rw [Mode.step, Mode.read] at h
    split at h
    · cases h
    · split at h <;> cases h
  | escaped quote => cases h
  | line =>
    rw [Mode.step, Mode.read, if_neg hc] at h
    cases h

theorem cutsCode_of_cutInCode {σ : Type} {verdict : σ → Char → Verdict σ} {start : σ}
    (h : cutInCode verdict start t = some cut) (hafter : cut.after = c :: cut.behind) (hc : c ≠ '\n')
    (hline : isLineStart c = false) : CutsCode cut c := by
  rw [cutInCode_eq_cutWhere] at h
  obtain ⟨d, hd, hstep⟩ := exists_of_cutWhere Mode.isQuoting_code h
  obtain rfl : c = d := (List.cons.inj (hafter.symm.trans hd)).1
  have hbefore := eq_code_of_isCode (isQuoting_past Mode.isQuoting_code cut.before) (congrArg Prod.fst hstep) hc
  rw [hbefore] at hstep
  exact ⟨hafter, hbefore, hline, hstep⟩

namespace CutsCode

/-- What follows the cut of the masked text. -/
theorem after_mask (h : CutsCode cut c) : (cut.mask .code).after = Mode.code.mask cut.after := by
  rw [Cut.mask, h.before]

/-- The cut of the masked text. -/
theorem mask_eq (h : CutsCode cut c) :
    cut.mask .code = ⟨Mode.code.mask cut.before, c :: Mode.code.mask cut.behind⟩ := by
  rw [Cut.mask, h.after, h.before, Mode.mask, Mode.shown_of_not_isLiteral rfl, h.behind]
  rfl

/-- What is cut off with the character ends in code. -/
theorem endsInCode (h : CutsCode cut c) : cut.through.EndsInCode := by
  have hthrough : cut.through = cut.before ++ [c] := by rw [Cut.through, h.after]; rfl
  refine ⟨?_, ?_⟩
  · have hstep : Mode.code.step c [] = (true, .code) := by
      rw [← h.behind]
      exact (step_append (t := cut.behind) .code (apart_of_last fun d hd => by cases hd; exact h.line)).symm
    rw [hthrough, past_append (apart_of_head fun d hd => by cases hd; exact h.line), h.before, Mode.past, hstep]
    rfl
  · rw [hthrough, List.getLast?_concat]
    intro d hd
    cases hd
    exact h.line

/-- What is cut off of the masked text with the character. -/
theorem through_mask (h : CutsCode cut c) : (cut.mask .code).through = Mode.code.mask cut.through := by
  have happly := Mode.mask_append (s := cut.before) (t := [c])
    (apart_of_head fun d hd => by cases hd; exact h.line) .code
  rw [h.mask_eq, Cut.through, Cut.through, h.after]
  change _ = Mode.code.mask (cut.before ++ [c])
  rw [happly, h.before, Mode.mask, Mode.shown_of_not_isLiteral rfl]
  rfl

end CutsCode

/-- What brackets match cuts the code. -/
theorem cutsCode_of_cutAtMatching? (h : t.cutAtMatching? opening closing = some cut) (hc : closing ≠ '\n')
    (hline : isLineStart closing = false) : CutsCode cut closing := by
  obtain ⟨rest, hrest⟩ := exists_of_cutAtMatching? h
  have hafter : cut.after = closing :: cut.behind := by rw [Cut.behind, hrest, List.tail_cons]
  rw [cutAtMatching?] at h
  split at h
  · exact cutsCode_of_cutInCode h hafter hc hline
  · cases h

/-- What a character outside all brackets cuts off is code. -/
theorem cutsCode_of_cutAtTopLevel? (h : t.cutAtTopLevel? (· == c) = some cut) (hcode : isCodeChar c = true)
    (hc : c ≠ '\n') : CutsCode cut c := by
  have hline : isLineStart c = false := by
    rw [isCodeChar, Bool.and_eq_true, Bool.not_eq_true', Bool.not_eq_true'] at hcode
    exact hcode.2
  obtain ⟨hwhole, -⟩ := passable_of_cutAtTopLevel? hcode hc h
  have hcut := whole_of_cutInCode _ h
  rw [Cut.whole] at hcut
  exact cutsCode_of_cutInCode h (List.append_cancel_left (hcut.trans hwhole)) hc hline

end Brackets

/-- In front of a brace of the code no literal has run to the end of its line. -/
def BracesClear (t : Text) : Prop :=
  ∀ front rest, t = front ++ '{' :: rest → Mode.code.past front = .code →
    (Mode.code.past front.trimEnd).isLiteral = false

section BodyOpen

variable {t passed : Text}

/-- What is in front of a brace ends with the same word when it is masked. -/
theorem endsWithWord_passed (hpassed : EndsInCode passed.reverse) (hclear : BracesClear (passed.reverse ++ t))
    {cut : Cut} (hcut : t.cutAtTopLevel? (· == '{') = some cut) :
    endsWithWord ((cut.mask .code).before.reverse ++ (Mode.code.mask passed.reverse).reverse) "error".toList =
      endsWithWord (cut.before.reverse ++ passed) "error".toList := by
  have hcode := cutsCode_of_cutAtTopLevel? hcut rfl (by decide)
  have hapart := hpassed.apart cut.before
  have hfront : Mode.code.past (passed.reverse ++ cut.before) = .code := by
    rw [past_append hapart, hpassed.1, hcode.before]
  have hwhole : passed.reverse ++ t = (passed.reverse ++ cut.before) ++ '{' :: cut.behind := by
    rw [List.append_assoc, ← hcode.after, ← Cut.whole, whole_of_cutInCode _ hcut]
  have hword := endsWithWord_mask Mode.isQuoting_code (hclear _ _ hwhole hfront) "error".toList
  rw [Mode.mask_append hapart, hpassed.1, List.reverse_append, List.reverse_append, List.reverse_reverse] at hword
  exact hword

/-- What is passed up to the end of an error set ends in code, and is masked in two parts. -/
theorem endsInCode_errorSet {cut set : Cut} (hcut : t.cutAtTopLevel? (· == '{') = some cut)
    (hset : cut.after.cutAtMatching? '{' '}' = some set) :
    t = cut.before ++ set.through ++ set.behind ∧ EndsInCode (cut.before ++ set.through) ∧
      Mode.code.mask (cut.before ++ set.through) = Mode.code.mask cut.before ++ Mode.code.mask set.through := by
  have hcode := cutsCode_of_cutAtTopLevel? hcut rfl (by decide)
  have hclosed := cutsCode_of_cutAtMatching? hset (by decide) (by decide)
  have hend := hclosed.endsInCode
  have hapart : Apart cut.before set.through := by
    obtain ⟨inner, hinner⟩ := exists_before_of_cutAtMatching? (by decide) hset
    apply apart_of_head
    intro c hc
    rw [Cut.through, hinner] at hc
    cases hc
    rfl
  refine ⟨?_, ⟨?_, fun c hc => hend.2 c ?_⟩, ?_⟩
  · rw [List.append_assoc, set.through_append_behind, whole_of_cutAtMatching? hset]
    exact (whole_of_cutInCode _ hcut).symm
  · rw [past_append hapart, hcode.before, hend.1]
  · rwa [List.getLast?_append_of_ne_nil] at hc
    simp [Cut.through, hclosed.after]
  · rw [Mode.mask_append hapart, hcode.before]

/-- The brace that opens the body of a function does in the masked text. -/
theorem cutAtBodyOpen?_mask (hpassed : EndsInCode passed.reverse) (hclear : BracesClear (passed.reverse ++ t)) :
    (Mode.code.mask t).cutAtBodyOpen? (Mode.code.mask passed.reverse).reverse =
      (t.cutAtBodyOpen? passed).map (Cut.mask .code) := by
  fun_induction Text.cutAtBodyOpen? t passed with
  | case1 t passed hcut =>
    rw [cutAtBodyOpen?_eq, cutAtTopLevel?_mask, hcut]
    rfl
  | case2 t passed cut hcut front hword hclosed =>
    have hcode := cutsCode_of_cutAtTopLevel? hcut rfl (by decide)
    rw [cutAtBodyOpen?_eq, cutAtTopLevel?_mask, hcut]
    dsimp only [Option.map_some]
    rw [endsWithWord_passed hpassed hclear hcut, if_pos hword, hcode.after_mask, cutAtMatching?_mask, hclosed]
    rfl
  | case3 t passed cut hcut front hword set hclosed ih =>
    have hcode := cutsCode_of_cutAtTopLevel? hcut rfl (by decide)
    have hset := cutsCode_of_cutAtMatching? hclosed (by decide) (by decide)
    obtain ⟨hwhole, hends, hmask⟩ := endsInCode_errorSet hcut hclosed
    -- what has been passed behind the error set, in order
    have hfront : (set.through.reverse ++ front).reverse = passed.reverse ++ (cut.before ++ set.through) := by
      simp [front]
    have hrest := ih (hfront ▸ hpassed.append hends) (by rwa [hfront, List.append_assoc, ← hwhole])
    rw [hfront, Mode.mask_append (hpassed.apart _), hpassed.1, hmask] at hrest
    rw [cutAtBodyOpen?_eq, cutAtTopLevel?_mask, hcut]
    dsimp only [Option.map_some]
    rw [endsWithWord_passed hpassed hclear hcut, if_pos hword, hcode.after_mask, cutAtMatching?_mask, hclosed]
    dsimp only [Option.map_some]
    have hreverse : (set.mask .code).through.reverse ++
        ((cut.mask .code).before.reverse ++ (Mode.code.mask passed.reverse).reverse) =
          (Mode.code.mask passed.reverse ++ (Mode.code.mask cut.before ++ Mode.code.mask set.through)).reverse := by
      rw [hset.through_mask, hcode.mask_eq]
      simp
    have hbehind : (set.mask .code).behind = Mode.code.mask set.behind := by
      rw [hset.mask_eq]
      rfl
    rw [hreverse, hbehind, hrest, hset.through_mask, Option.map_map, Option.map_map]
    congr 1
    funext rest
    simp only [Function.comp_apply, Cut.mask, ← List.append_assoc]
    rw [Mode.mask_append (hends.apart _), past_append (hends.apart _), hends.1, hmask]
  | case4 t passed cut hcut front hword =>
    rw [cutAtBodyOpen?_eq, cutAtTopLevel?_mask, hcut]
    dsimp only [Option.map_some]
    rw [endsWithWord_passed hpassed hclear hcut, if_neg hword]

/-- The brace that opens the body of a function is code. -/
theorem past_of_cutAtBodyOpen? {cut : Cut} (h : t.cutAtBodyOpen? passed = some cut) :
    Mode.code.past cut.before = .code := by
  fun_induction Text.cutAtBodyOpen? t passed generalizing cut with
  | case1 => cases h
  | case2 => cases h
  | case3 t passed found hfound front hword set hclosed =>
    rename_i ih
    obtain ⟨inner, hinner, rfl⟩ := Option.map_eq_some_iff.1 h
    have hends := (endsInCode_errorSet hfound hclosed).2.1
    rw [← List.append_assoc, past_append (hends.apart _), hends.1, ih hinner]
  | case4 t passed found hfound =>
    cases h
    exact (cutsCode_of_cutAtTopLevel? hfound rfl (by decide)).before

end BodyOpen

section Functions

variable {t q more : Text} {c : Char}

/-- What starts like a function starts with qualifiers and the word that makes one. -/
theorem exists_of_startOf_function (h : startOf t = .function) :
    ∃ q c more, Qualifying ["pub".toList, "inline".toList, "export".toList] q ∧
      t = q ++ ("fn".toList ++ c :: more) ∧ (c = ' ' ∨ c = '\t') := by
  rw [startOf] at h
  split at h
  · cases h
  · split at h
    · next hfn => exact exists_qualifying_fn hfn
    · split at h
      · cases h
      · split at h <;> cases h

/-- What is behind a function whose text starts with its qualifiers and its name. -/
def afterMethod? (front after : Text) : Option Text := do
  let params ← after.cutAtMatching? '(' ')'
  let result ← params.behind.cutAtBodyOpen? (front ++ params.through).reverse
  let body ← result.after.cutAtMatching? '{' '}'
  return body.behind

/-- A function is read to what is behind it. -/
theorem map_snd_readMethod? (t : Text) :
    (readMethod? t).map Prod.snd =
      (t.cutAtWord? "fn".toList).bind fun qualified =>
        (qualified.after.cutAtFirst? (· == '(')).bind fun named =>
          if isIdentifier (trim (named.before.drop 2)) = true then
            afterMethod? (qualified.before ++ named.before) named.after
          else none := by
  rw [readMethod?, Option.bind_eq_bind, Option.map_bind]
  congr 1
  funext qualified
  rw [Function.comp_apply, Option.map_bind]
  congr 1
  funext named
  rw [Function.comp_apply]
  dsimp only
  split
  · simp only [afterMethod?, Option.bind_eq_bind, Option.map_bind, Function.comp_def]
    rfl
  · rfl

/-- What is behind a function is found behind its parameters in the masked text too. -/
theorem afterMethod?_mask {front after : Text} (hfront : front.EndsInCode) (hclear : BracesClear (front ++ after)) :
    afterMethod? (Mode.code.mask front) (Mode.code.mask after) =
      (afterMethod? front after).map Mode.code.mask := by
  rw [afterMethod?, afterMethod?, cutAtMatching?_mask]
  cases hparams : after.cutAtMatching? '(' ')' with
  | none => rfl
  | some params =>
    have hclosed := cutsCode_of_cutAtMatching? hparams (by decide) (by decide)
    have hbehind : (params.mask .code).behind = Mode.code.mask params.behind := by
      rw [hclosed.mask_eq]
      rfl
    have hhead : EndsInCode (front ++ params.through).reverse.reverse := by
      rw [List.reverse_reverse]
      exact hfront.append hclosed.endsInCode
    have hwhole : (front ++ params.through).reverse.reverse ++ params.behind = front ++ after := by
      rw [List.reverse_reverse, List.append_assoc, params.through_append_behind, whole_of_cutAtMatching? hparams]
    have hmask : Mode.code.mask (front ++ params.through) =
        Mode.code.mask front ++ (params.mask .code).through := by
      rw [Mode.mask_append (hfront.apart _), hfront.1, hclosed.through_mask]
    have hopens := cutAtBodyOpen?_mask hhead (hwhole ▸ hclear)
    rw [List.reverse_reverse, hmask] at hopens
    simp only [Option.map_some, Option.bind_eq_bind, Option.bind_some, hbehind, hopens]
    cases hresult : params.behind.cutAtBodyOpen? (front ++ params.through).reverse with
    | none => rfl
    | some result =>
      have hafter : (result.mask .code).after = Mode.code.mask result.after := by
        rw [Cut.mask, past_of_cutAtBodyOpen? hresult]
      simp only [Option.map_some, Option.bind_some, hafter, cutAtMatching?_mask]
      cases hbody : result.after.cutAtMatching? '{' '}' with
      | none => rfl
      | some body =>
        have hend := cutsCode_of_cutAtMatching? hbody (by decide) (by decide)
        simp only [Option.map_some, Option.bind_some, hend.mask_eq]
        rfl

/-- The word that makes a function is code, and so is what stands up to the parameters if it is a name. -/
theorem isCodeChar_of_title {named : Cut} (hc : isBlank c = true)
    (h : cutAtFirst? (· == '(') ("fn".toList ++ c :: more) = some named)
    (hname : isIdentifier (trim (named.before.drop 2)) = true) : ∀ d ∈ named.before, isCodeChar d = true := by
  obtain ⟨gap, name, back, hbefore, htrim, hgap, hback⟩ := MethodPieces.exists_title hc h
  rw [htrim] at hname
  rw [hbefore]
  exact List.forall_mem_append.2 ⟨forall_of_all (by decide), List.forall_mem_cons.2 ⟨isCodeChar_of_isBlank hc,
    List.forall_mem_append.2 ⟨isCodeChar_of_allBlank hgap,
      List.forall_mem_append.2 ⟨isCodeChar_of_isIdentifier hname, isCodeChar_of_allBlank hback⟩⟩⟩⟩

/-- What has a quote in front of the parameters has no name. -/
theorem not_isIdentifier_title {title : Text} {quote : Char} (hquote : isQuote quote = true)
    (h : ∀ cut ∈ cutAtFirst? (· == '(') ("fn".toList ++ title), quote ∈ cut.before) :
    ∀ named ∈ cutAtFirst? (· == '(') ("fn".toList ++ title),
      isIdentifier (trim (named.before.drop 2)) = false := by
  intro named hnamed
  have hmem := h named hnamed
  rw [cutAtFirst?_append (forall_of_all (by decide)), Option.mem_def, Option.map_eq_some_iff] at hnamed
  obtain ⟨inner, -, rfl⟩ := hnamed
  have hword : ∀ d ∈ "fn".toList, isQuote d = false := forall_of_all (by decide)
  have hinner : quote ∈ inner.before := by
    refine (List.mem_append.1 hmem).resolve_left fun hfn => ?_
    rw [hword quote hfn] at hquote
    cases hquote
  exact isIdentifier_of_quote_mem hquote (quote_mem_trim hquote hinner)

/-- A function is read from the masked text as it is from the text. -/
theorem readMethod?_mask (hq : Qualifying ["pub".toList, "inline".toList, "export".toList] q)
    (ht : t = q ++ ("fn".toList ++ c :: more)) (hc : isBlank c = true) (hclear : BracesClear t) :
    (readMethod? (Mode.code.mask t)).map Prod.snd = ((readMethod? t).map Prod.snd).map Mode.code.mask := by
  have hqualifiers := isCodeChar_of_qualifying hq (by decide)
  have hword : ∀ d ∈ "fn".toList ++ [c], isCodeChar d = true :=
    List.forall_mem_append.2 ⟨forall_of_all (by decide), by simpa using isCodeChar_of_isBlank hc⟩
  have hmask : Mode.code.mask t = q ++ ("fn".toList ++ c :: Mode.code.mask more) := by
    have hmore := mask_append_of_isCodeChar hword more
    rw [List.append_assoc, List.append_assoc, List.singleton_append, List.singleton_append] at hmore
    rw [ht, mask_append_of_isCodeChar hqualifiers, hmore]
  have htitle : AgreeToQuote ("fn".toList ++ c :: Mode.code.mask more) ("fn".toList ++ c :: more) := by
    rcases Mode.agreeToQuote_mask Mode.isLiteral_code more with heq | ⟨front, quote, x, y, hquote, hx, hy⟩
    · rw [heq]
      exact .refl _
    · rw [hx, hy]
      exact .inr ⟨"fn".toList ++ c :: front, quote, x, y, hquote, by simp, by simp⟩
  rw [map_snd_readMethod?, map_snd_readMethod?, hmask, hq.cutAtWord?_fn hc, ht, hq.cutAtWord?_fn hc, Option.bind_some,
    Option.bind_some]
  rcases htitle.cutAtFirst? (c := '(') rfl with ⟨hx, hy⟩ | ⟨front, x, y, hx, hy, -⟩ | ⟨quote, hquote, hx, hy⟩
  · rw [hx, hy]
    rfl
  · rw [hx, hy, Option.bind_some, Option.bind_some]
    dsimp only
    by_cases hname : isIdentifier (trim (front.drop 2)) = true
    · rw [if_pos hname, if_pos hname]
      have hfront : ∀ d ∈ q ++ front, isCodeChar d = true :=
        List.forall_mem_append.2 ⟨hqualifiers, isCodeChar_of_title hc hy hname⟩
      have hwhole : t = (q ++ front) ++ '(' :: y := by
        rw [ht, (eq_of_cutAtFirst? hy).1, List.append_assoc]
        rfl
      have hparams : '(' :: x = Mode.code.mask ('(' :: y) := by
        have hmasked := hmask
        rw [(eq_of_cutAtFirst? hx).1, hwhole, mask_append_of_isCodeChar hfront, List.append_assoc] at hmasked
        exact (List.append_cancel_left (List.append_cancel_left hmasked)).symm
      have hafter := afterMethod?_mask (endsInCode_of_all hfront) (hwhole ▸ hclear)
      have hself : Mode.code.mask (q ++ front) = q ++ front := by
        simpa [Mode.mask] using mask_append_of_isCodeChar hfront []
      rwa [hself, ← hparams] at hafter
    · rw [if_neg hname, if_neg hname]
      rfl
  · have hnone {title front : Text} (h : ∀ cut ∈ cutAtFirst? (· == '(') ("fn".toList ++ title), quote ∈ cut.before) :
        ((cutAtFirst? (· == '(') ("fn".toList ++ title)).bind fun named =>
          if isIdentifier (trim (named.before.drop 2)) = true then afterMethod? (front ++ named.before) named.after
          else none) = none := by
      rw [Option.bind_eq_none_iff]
      intro named hnamed
      rw [not_isIdentifier_title hquote h named hnamed]
      rfl
    rw [hnone hx, hnone hy]
    rfl

end Functions

/-- What kind of member something is. -/
inductive Kind where
  | method
  | properties
  | parent
  | mixins
  | constant
  | field
  | nothing
deriving DecidableEq, Repr

/-- The kind of a member. -/
def Member.kind : Member → Kind
  | method _ => .method
  | properties _ => .properties
  | parent _ => .parent
  | mixins _ => .mixins
  | constant _ => .constant
  | field _ => .field
  | nothing => .nothing

section Values

variable {s t name value : Text}

/-- Bindings of the same name have the same kind if their values are both empty or both not. -/
theorem kind_referenceMember (hname : (name = "mixins".toList) ↔ s = "mixins".toList)
    (hvalue : value.isEmpty = t.isEmpty) : (referenceMember name value).kind = (referenceMember s t).kind := by
  rw [referenceMember, referenceMember, apply_ite Member.kind, apply_ite Member.kind, apply_ite Member.kind,
    apply_ite Member.kind]
  simp only [hname, hvalue]
  rfl

/-- Statements have the same kind if their names are both that of the properties, both empty, or neither. -/
theorem kind_statementMember (hname : AgreeToQuote name s) (value other through front : Text) :
    (statementMember name value through).kind = (statementMember s other front).kind := by
  have hproperties : name = "properties".toList ↔ s = "properties".toList := hname.eq_iff (forall_of_all (by decide))
  rw [statementMember, statementMember, apply_ite Member.kind, apply_ite Member.kind, apply_ite Member.kind,
    apply_ite Member.kind]
  simp only [hproperties, hname.isEmpty_eq]
  rfl

/-- Fields of one name have the same kind if their types are both empty or both not. -/
theorem kind_fieldMember (name : Text) {type other : Text} (h : type.isEmpty = other.isEmpty)
    (value : Option Text) (value' : Option Text) :
    (fieldMember name type value).kind = (fieldMember name other value').kind := by
  rw [fieldMember, fieldMember]
  simp only [apply_ite Member.kind, h]
  rfl

end Values

/-- The signs that a member is cut at are in no literal: the brace of a block and the sign of equality of a binding
are code, no literal runs out in front of a brace of a function, and the line of a member that makes no sense does
not end in a literal. -/
structure Legible (t : Text) : Prop where
  block : startOf t = .block → ∀ cut ∈ t.cutAtFirst? (· == '{'), Mode.code.past cut.before = .code
  line : startOf t = .binding → ∀ cut ∈ t.cutOnLine? '=', Mode.code.past cut.before = .code
  statement : startOf t = .binding → ∀ statement ∈ t.cutAtTopLevel? (· == ';'),
    ∀ cut ∈ statement.before.cutAtFirst? (· == '='), Mode.code.past cut.before = .code
  function : startOf t = .function → BracesClear t
  givenUp : (Member.read t).2 = t.cutLine.after → (Member.read t).2 ≠ [] → Mode.code.past t.cutLine.before = .code

section Readers

variable {t : Text}

/-- Whether two readings give a member of one kind, and the first one the rest of the second one masked. -/
def Matches (masked read : Member × Text) : Prop := masked.1.kind = read.1.kind ∧ masked.2 = Mode.code.mask read.2

/-- The line of a member that makes no sense ends where it does when it is masked. -/
theorem Legible.line_mask (h : Legible t) (hread : (Member.read t).2 = t.cutLine.after) :
    (Mode.code.mask t).cutLine.after = Mode.code.mask t.cutLine.after := by
  rw [cutLine_mask]
  by_cases hrest : t.cutLine.after = []
  · rw [hrest]
    rfl
  · rw [h.givenUp hread (hread ▸ hrest)]

/-- A block ends in the masked text where it ends in the text. -/
theorem dropBlock_mask (hblock : ∀ cut ∈ t.cutAtFirst? (· == '{'), Mode.code.past cut.before = .code)
    (hline : dropBlock t = t.cutLine.after → (Mode.code.mask t).cutLine.after = Mode.code.mask t.cutLine.after) :
    dropBlock (Mode.code.mask t) = Mode.code.mask (dropBlock t) := by
  rw [dropBlock] at hline ⊢
  rw [dropBlock]
  cases hopened : t.cutAtFirst? (· == '{') with
  | none =>
    rw [hopened] at hline
    rw [cutAtFirst?_mask_of_none (by decide) hopened]
    exact hline rfl
  | some opened =>
    have hcode := hblock opened hopened
    have hshown : (Mode.code.past opened.before).shown '{' = ['{'] := by
      rw [hcode, Mode.shown_of_not_isLiteral Mode.isLiteral_code]
    rw [cutAtFirst?_mask (by decide) rfl hopened hshown]
    dsimp only
    rw [show (opened.mask .code).after = Mode.code.mask opened.after by rw [Cut.mask, hcode], cutAtMatching?_mask]
    cases hclosed : opened.after.cutAtMatching? '{' '}' with
    | none => rfl
    | some closed =>
      rw [Option.map_some, (cutsCode_of_cutAtMatching? hclosed (by decide) (by decide)).mask_eq]
      rfl

/-- The element of a field is the same in the masked text, but for the mask. -/
theorem cutElement_mask (t : Text) :
    cutElement (Mode.code.mask t) = (Mode.code.mask (cutElement t).1, Mode.code.mask (cutElement t).2) := by
  rw [cutElement, cutElement, cutAtTopLevel?_mask]
  cases hcut : t.cutAtTopLevel? (· == ',') with
  | none => rfl
  | some cut =>
    rw [Option.map_some, (cutsCode_of_cutAtTopLevel? hcut rfl (by decide)).mask_eq]
    rfl

/-- What has a quote in front of its colon makes no sense. -/
theorem readField_of_quote_mem {quote : Char} (hquote : isQuote quote = true)
    (h : ∀ cut ∈ (cutElement t).1.dropTrailingComment.cutAtFirst? (· == ':'), quote ∈ cut.before) :
    readField t = (.nothing, t.cutLine.after) := by
  cases hcut : (cutElement t).1.dropTrailingComment.cutAtFirst? (· == ':') with
  | none => exact readField_of_cut_none hcut
  | some cut =>
    have hname := isIdentifier_of_quote_mem hquote (quote_mem_trim hquote (h cut hcut))
    rw [readField_of_cut hcut, if_pos (.inr hname)]

/-- A field is read from the masked text as it is from the text. -/
theorem readField_mask
    (hline : (readField t).2 = t.cutLine.after → (Mode.code.mask t).cutLine.after = Mode.code.mask t.cutLine.after) :
    Matches (readField (Mode.code.mask t)) (readField t) := by
  have hgivenUp (hmasked : readField (Mode.code.mask t) = (.nothing, (Mode.code.mask t).cutLine.after))
      (hread : readField t = (.nothing, t.cutLine.after)) : Matches (readField (Mode.code.mask t)) (readField t) := by
    rw [hmasked, hread]
    exact ⟨rfl, hline (congrArg Prod.snd hread)⟩
  have hagree : AgreeToQuote (cutElement (Mode.code.mask t)).1.dropTrailingComment
      (cutElement t).1.dropTrailingComment := by
    rw [cutElement_mask]
    exact (Mode.agreeToQuote_mask rfl _).dropTrailingComment
  rcases hagree.cutAtFirst? (c := ':') rfl with ⟨hx, hy⟩ | ⟨front, x, y, hx, hy, hxy⟩ | ⟨quote, hquote, hx, hy⟩
  · exact hgivenUp (readField_of_cut_none hx) (readField_of_cut_none hy)
  · by_cases hname : '=' ∈ front ∨ isIdentifier front.trim = false
    · refine hgivenUp ?_ ?_
      · rw [readField_of_cut hx, if_pos hname]
      · rw [readField_of_cut hy, if_pos hname]
    · rw [readField_of_cut hx, readField_of_cut hy, if_neg hname, if_neg hname]
      refine ⟨kind_fieldMember _ hxy.isEmpty_readTyped _ _, ?_⟩
      rw [cutElement_mask]
  · exact hgivenUp (readField_of_quote_mem hquote hx) (readField_of_quote_mem hquote hy)

/-- The value of a binding is the same in the masked text, but for the mask. -/
theorem readBound_mask (t : Text) :
    readBound (Mode.code.mask t) = (Mode.code.mask (readBound t).1, Mode.code.mask (readBound t).2) := by
  cases hcut : t.cutAtTopLevel? endsBinding with
  | some cut =>
    have hmasked : (Mode.code.mask t).cutAtTopLevel? endsBinding = some (cut.mask .code) := by
      rw [cutAtTopLevel?_mask, hcut]
      rfl
    rw [readBound_of_cut hmasked, readBound_of_cut hcut]
    rw [cutAtTopLevel?, cutInCode_eq_cutWhere] at hcut
    rw [behind_mask Mode.isQuoting_code hcut]
    rfl
  | none =>
    have hwhole {t : Text} (hnone : t.cutAtTopLevel? endsBinding = none) : readBound t = (t, []) := by
      rw [readBound]
      split
      · next hsome => cases hnone.symm.trans hsome
      · rfl
    have hmasked : (Mode.code.mask t).cutAtTopLevel? endsBinding = none := by
      rw [cutAtTopLevel?_mask, hcut]
      rfl
    rw [hwhole hmasked, hwhole hcut]
    rfl

/-- The binding of the parent or the mixins is read from the masked text as it is from the text. -/
theorem readReferenceBinding?_mask (h : ∀ cut ∈ t.cutOnLine? '=', Mode.code.past cut.before = .code) :
    (readReferenceBinding? t = none ∧ readReferenceBinding? (Mode.code.mask t) = none) ∨
      ∃ read masked, readReferenceBinding? t = some read ∧
        readReferenceBinding? (Mode.code.mask t) = some masked ∧ Matches masked read := by
  have hsearch : (Mode.code.mask t).cutOnLine? '=' = (t.cutOnLine? '=').map (Cut.mask .code) :=
    cutOnLine?_mask (by decide) rfl (by decide) fun cut hcut => by rw [h cut hcut]; rfl
  rw [readReferenceBinding?_eq, readReferenceBinding?_eq, hsearch]
  cases hcut : t.cutOnLine? '=' with
  | none => exact .inl ⟨rfl, rfl⟩
  | some cut =>
    have hcode : CutsCode cut '=' :=
      { after := (cutOnLine?_eq_some_iff.1 hcut).2.1
        before := h cut hcut
        line := rfl
        behind := rfl }
    have hname : AgreeToQuote (bindingName (cut.mask .code).before) (bindingName cut.before) :=
      (Mode.agreeToQuote_mask rfl cut.before).bindingName
    have hextends := hname.eq_iff (w := "extends".toList) (forall_of_all (by decide))
    have hmixins := hname.eq_iff (w := "mixins".toList) (forall_of_all (by decide))
    have hbehind : (cut.mask .code).behind = Mode.code.mask cut.behind := by
      rw [hcode.mask_eq]
      rfl
    simp only [Option.map_some, Option.bind_some, hextends, hmixins, hbehind, readBound_mask]
    split
    · refine .inr ⟨_, _, rfl, rfl, kind_referenceMember hmixins ?_, rfl⟩
      exact ((Mode.agreeToQuote_mask rfl _).dropTrailingComment.trim).isEmpty_eq
    · exact .inl ⟨rfl, rfl⟩

/-- A constant is read from the masked text as it is from the text. -/
theorem readConstant_mask (h : ∀ cut ∈ t.cutOnLine? '=', Mode.code.past cut.before = .code)
    (hstatement : ∀ statement ∈ t.cutAtTopLevel? (· == ';'),
      ∀ cut ∈ statement.before.cutAtFirst? (· == '='), Mode.code.past cut.before = .code)
    (hline : (readConstant t).2 = t.cutLine.after →
      (Mode.code.mask t).cutLine.after = Mode.code.mask t.cutLine.after) :
    Matches (readConstant (Mode.code.mask t)) (readConstant t) := by
  rcases readReferenceBinding?_mask h with ⟨hnone, hmasked⟩ | ⟨read, masked, hread, hmasked, hmatches⟩
  · have hsearch := cutAtTopLevel?_mask (· == ';') t
    cases hcut : t.cutAtTopLevel? (· == ';') with
    | none =>
      rw [hcut] at hsearch
      have hgivenUp : readConstant t = (.nothing, t.cutLine.after) := by rw [readConstant, hnone, hcut]
      rw [hgivenUp] at hline ⊢
      rw [readConstant, hmasked, hsearch]
      exact ⟨rfl, hline rfl⟩
    | some statement =>
      have hcode := cutsCode_of_cutAtTopLevel? hcut rfl (by decide)
      rw [hcut, Option.map_some, hcode.mask_eq] at hsearch
      cases hsign : statement.before.cutAtFirst? (· == '=') with
      | none =>
        rw [readConstant, readConstant, hnone, hmasked, hcut, hsearch]
        dsimp only
        rw [hsign, cutAtFirst?_mask_of_none (by decide) hsign]
        exact ⟨rfl, rfl⟩
      | some cut =>
        have hshown : (Mode.code.past cut.before).shown '=' = ['='] := by
          rw [hstatement statement hcut cut hsign, Mode.shown_of_not_isLiteral Mode.isLiteral_code]
        have hsign' := cutAtFirst?_mask (by decide) rfl hsign hshown
        rw [readConstant_of_cut hnone hcut hsign, readConstant_of_cut hmasked hsearch hsign']
        exact ⟨kind_statementMember (Mode.agreeToQuote_mask rfl cut.before).bindingName _ _ _ _, rfl⟩
  · rw [readConstant, readConstant, hread, hmasked]
    exact hmatches

/-- A legible member is read from the masked text as it is from the text. -/
theorem Legible.read_mask (h : Legible t) : Matches (Member.read (Mode.code.mask t)) (Member.read t) := by
  have hline := h.line_mask
  have hstart := (Mode.agreeToQuote_mask Mode.isLiteral_code t).startOf_eq
  rw [Member.read_eq_start, Member.read_eq_start t, hstart]
  rw [Member.read_eq_start t] at hline
  cases hkind : startOf t with
  | comment =>
    rw [hkind] at hline
    exact ⟨rfl, hline rfl⟩
  | function =>
    rw [hkind] at hline
    obtain ⟨q, c, more, hq, ht, hc⟩ := exists_of_startOf_function hkind
    have hmask := readMethod?_mask hq ht (isBlank_of_space_or_tab hc) (h.function hkind)
    simp only [Start.read] at hline ⊢
    cases hread : readMethod? t with
    | none =>
      rw [hread, Option.map_none, Option.map_none, Option.map_eq_none_iff] at hmask
      rw [hread] at hline
      rw [hmask]
      exact ⟨rfl, hline rfl⟩
    | some read =>
      rw [hread, Option.map_some, Option.map_some, Option.map_eq_some_iff] at hmask
      obtain ⟨masked, hmasked, hrest⟩ := hmask
      rw [hmasked]
      exact ⟨rfl, hrest⟩
  | block =>
    rw [hkind] at hline
    exact ⟨rfl, dropBlock_mask (h.block hkind) hline⟩
  | binding =>
    rw [hkind] at hline
    exact readConstant_mask (h.line hkind) (h.statement hkind) hline
  | field =>
    rw [hkind] at hline
    exact readField_mask hline

end Readers

end ClassFlattening
