import ClassFlattening.Proofs.ByOffset.Retargeting
import ClassFlattening.Proofs.ImportCalls
import ClassFlattening.Proofs.MethodPieces
import ClassFlattening.Proofs.Remarks

/-!
# The parameter `self`, as it is parsed and as it is retargeted

The parser splits the parameters of a function, trims the pieces, drops the empty ones and looks at the
start of the first piece that is left. Retargeting searches the first parameter as it stands for the word
and for the colon behind it. Both find the same parameter: blanks, the word, blanks, a colon and a type.

In front of the name the type has its qualifiers. Retargeting steps over a `const` only if a blank follows
it, so where a `const` stands right in front of a sign the keyword is taken for the name.
-/

namespace ClassFlattening

open Text

/-- The parameters up to the first comma outside all brackets. -/
def firstParameter (params : Text) : Text :=
  ((params.cutAtTopLevel? (· == ',')).map Cut.before).getD params

/-- A type without blanks and pointer and optional signs in front. -/
def dropSigns (t : Text) : Text := t.dropWhile fun c => isBlank c || c == '*' || c == '?'

theorem dropSigns_suffix (t : Text) : dropSigns t <:+ t := List.dropWhile_suffix _

theorem length_behind_const_lt {t : Text} (h : (dropSigns t).leadingWord = "const".toList) :
    (dropSigns t).afterLeadingWord.length < t.length := by
  have hword : (dropSigns t).leadingWord ≠ [] := by
    rw [h]
    decide
  exact (length_afterLeadingWord_lt hword).trans_le (dropSigns_suffix t).length_le

/-- A type without its qualifiers: blanks, pointer and optional signs and the word `const`. -/
def bareType (t : Text) : Text :=
  if _const : (dropSigns t).leadingWord = "const".toList then bareType (dropSigns t).afterLeadingWord
  else dropSigns t
termination_by t.length
decreasing_by exact length_behind_const_lt _const

theorem bareType_of_const {t : Text} (h : (dropSigns t).leadingWord = "const".toList) :
    bareType (dropSigns t).afterLeadingWord = bareType t := by
  conv_rhs => rw [bareType, dif_pos h]

theorem bareType_suffix (t : Text) : bareType t <:+ t := by
  fun_induction bareType t with
  | case1 t hconst ih =>
    exact (ih.trans (List.dropWhile_suffix _)).trans (dropSigns_suffix t)
  | case2 t hconst => exact dropSigns_suffix t

/-- Whether a blank follows every `const` among the qualifiers of a type. -/
def constsSpaced (t : Text) : Bool :=
  if _const : (dropSigns t).leadingWord = "const".toList then
    (dropSigns t).afterLeadingWord.head?.any isBlank && constsSpaced (dropSigns t).afterLeadingWord
  else true
termination_by t.length
decreasing_by exact length_behind_const_lt _const

/-- A type has the word `const` among its qualifiers, with something other than a blank behind it. -/
structure HasTightConst (t before after : Text) : Prop where
  whole : before ++ ("const".toList ++ after) = t
  behind_word : after.startsInWord = false
  behind_blank : after.head?.any isBlank = false
  bareType_after : bareType after = bareType t

section Types

variable {t : Text}

theorem isIdentChar_of_mem_const : ∀ c ∈ "const".toList, isIdentChar c = true := forall_of_all (by decide)

/-- What is left of a type where the signs in front end in a `const` with a blank behind it, or do not. -/
theorem dropIndirections_eq (t : Text) :
    dropIndirections t =
      if (dropSigns t).leadingWord = "const".toList ∧ (dropSigns t).afterLeadingWord.head?.any isBlank = true
      then dropIndirections (dropSigns t).afterLeadingWord
      else dropSigns t := by
  have hword := isIdentChar_of_mem_const
  have hwhole := leadingWord_append_afterLeadingWord (dropSigns t)
  rw [dropIndirections]
  split
  · next c rest hconst =>
    change dropLead? (dropSigns t) "const".toList = _ at hconst
    change (if isBlank c then dropIndirections (c :: rest) else dropSigns t) = _
    rw [dropLead?_eq_some_iff] at hconst
    rw [hconst] at hwhole ⊢
    cases hblank : isBlank c with
    | true =>
      have hc := isIdentChar_of_isBlank hblank
      rw [leadingWord_append hword hc, afterLeadingWord_append hword hc, if_pos rfl, if_pos ⟨rfl, hblank⟩]
    | false =>
      rw [if_neg Bool.false_ne_true, if_neg]
      rintro ⟨hlead, hhead⟩
      rw [hlead] at hwhole
      rw [List.append_cancel_left hwhole, List.head?_cons, Option.any_some, hblank] at hhead
      cases hhead
  · next hnone =>
    change dropSigns t = _
    rw [if_neg]
    rintro ⟨hlead, hhead⟩
    rw [hlead] at hwhole
    cases hafter : (dropSigns t).afterLeadingWord with
    | nil =>
      rw [hafter] at hhead
      cases hhead
    | cons c rest =>
      rw [hafter] at hwhole
      exact hnone c rest (dropLead?_eq_some_iff.2 hwhole.symm)

/-- If a blank follows every `const`, stepping over the qualifiers ends at the bare type. -/
theorem dropIndirections_of_constsSpaced (h : constsSpaced t = true) : dropIndirections t = bareType t := by
  fun_induction constsSpaced t with
  | case1 t hconst ih =>
    rw [Bool.and_eq_true] at h
    rw [dropIndirections_eq, if_pos ⟨hconst, h.1⟩, ih h.2, bareType_of_const hconst]
  | case2 t hconst => rw [dropIndirections_eq, if_neg fun h => hconst h.1, bareType, dif_neg hconst]

/-- Otherwise it ends at the first `const` that has no blank behind it. -/
theorem exists_hasTightConst (h : constsSpaced t = false) :
    ∃ before after, HasTightConst t before after ∧ dropIndirections t = "const".toList ++ after := by
  fun_induction constsSpaced t with
  | case1 t hconst ih =>
    obtain ⟨signs, hsigns⟩ := dropSigns_suffix t
    have hwhole := leadingWord_append_afterLeadingWord (dropSigns t)
    have hbare := bareType_of_const hconst
    rw [hconst] at hwhole
    rw [Bool.and_eq_false_iff] at h
    by_cases hblank : (dropSigns t).afterLeadingWord.head?.any isBlank = true
    · obtain ⟨before, after, htight, hdrop⟩ := ih (h.resolve_left (by simp [hblank]))
      refine ⟨signs ++ ("const".toList ++ before), after,
        ⟨?_, htight.behind_word, htight.behind_blank, htight.bareType_after.trans hbare⟩, ?_⟩
      · rw [List.append_assoc, List.append_assoc, htight.whole, hwhole, hsigns]
      · rw [dropIndirections_eq, if_pos ⟨hconst, hblank⟩, hdrop]
    · refine ⟨signs, (dropSigns t).afterLeadingWord,
        ⟨?_, startsInWord_afterLeadingWord _, Bool.eq_false_iff.2 hblank, hbare⟩, ?_⟩
      · rw [hwhole, hsigns]
      · rw [dropIndirections_eq, if_neg fun h => hblank h.2, hwhole]
  | case2 t hconst => cases h

/-- A type is about the word in front of which its qualifiers end, if this can be a name. -/
theorem typeMention?_eq {before bare : Text} (hbare : dropIndirections t = bare) (ht : before ++ bare = t) :
    typeMention? t =
      if bare.head?.any isIdentStart then some ⟨before, bare.leadingWord, bare.afterLeadingWord⟩ else none := by
  have hbefore : t.take (t.length - bare.length) = before := by
    rw [← ht, List.length_append, Nat.add_sub_cancel, List.take_left]
  rw [typeMention?, hbare, hbefore]
  cases bare with
  | nil => rfl
  | cons c rest =>
    rw [List.head?_cons, Option.any_some]
    cases hc : isIdentChar c with
    | true =>
      have hlead : leadingWord (c :: rest) = c :: leadingWord rest := List.takeWhile_cons_of_pos hc
      rw [hlead]
    | false =>
      have hstart : isIdentStart c = false := by
        by_contra hstart
        rw [isIdentChar_of_isIdentStart (Bool.not_eq_false _ ▸ hstart)] at hc
        cases hc
      rw [leadingWord_cons hc, hstart]
      rfl

end Types

/-- A first parameter that is called `self`: the blanks around the word, a colon and the type. -/
structure SelfParameter where
  lead : Text
  gap : Text
  type : Text
  allBlank_lead : lead.allBlank = true
  allBlank_gap : gap.allBlank = true

namespace SelfParameter

variable (p : SelfParameter)

/-- The parameter through the colon. -/
def front : Text := p.lead ++ ("self".toList ++ (p.gap ++ [':']))

/-- The text of the parameter. -/
def text : Text := p.front ++ p.type

/-- Whether what is left of the type without its qualifiers starts like a name. -/
def isNamed : Bool := (bareType p.type).head?.any isIdentStart

/-- The range of the word behind the qualifiers of the type. -/
def nameRange : Nat × Nat :=
  let start := p.text.offsetOf (bareType p.type)
  (start, start + (bareType p.type).leadingWord.size)

theorem text_eq : p.text = p.lead ++ ("self".toList ++ (p.gap ++ ':' :: p.type)) := by
  simp only [text, front, List.append_assoc, List.cons_append, List.nil_append]

theorem not_allBlank_text : p.text.allBlank = false := by
  rw [Bool.eq_false_iff]
  intro h
  have hs : 's' ∈ p.text := by simp [text_eq]
  exact absurd (List.all_eq_true.1 h 's' hs) (by decide)

/-- The word `self` occurs first as the name of the parameter: no blank in front can start it. -/
theorem cutAtText?_text :
    p.text.cutAtText? "self".toList = some ⟨p.lead, "self".toList ++ (p.gap ++ ':' :: p.type)⟩ := by
  have hself : "self".toList ≠ [] := by decide
  obtain ⟨⟨before, after⟩, hcut, more, hlead⟩ := exists_cutAtText?_of_occurs hself p.lead (p.gap ++ ':' :: p.type)
  obtain ⟨rest, rfl⟩ := exists_of_cutAtText? hcut
  have hwhole := whole_of_cutWhere _ hcut
  rw [Cut.whole] at hwhole
  dsimp only at hlead hwhole
  rw [← hlead, List.append_assoc, List.append_assoc, List.append_cancel_left_eq] at hwhole
  cases more with
  | nil =>
    rw [List.append_nil] at hlead
    rw [text_eq, ← List.append_assoc, hcut, hlead, hwhole, List.nil_append]
  | cons c more =>
    obtain rfl : 's' = c := (List.cons.inj hwhole).1
    have hs : 's' ∈ p.lead := by
      rw [← hlead]
      simp
    exact absurd (List.all_eq_true.1 p.allBlank_lead 's' hs) (by decide)

/-- The first colon behind the start of the word is the one in front of the type. -/
theorem cutAtFirst?_colon :
    cutAtFirst? (· == ':') ("self".toList ++ (p.gap ++ ':' :: p.type)) =
      some ⟨"self".toList ++ p.gap, ':' :: p.type⟩ :=
  cutAtFirst?_behind_word (by decide) p.allBlank_gap (by decide) (by decide) p.type

end SelfParameter

section FirstParameter

variable {params : Text} {p : SelfParameter}

/-- What retargeting finds in a parameter called `self` is what its type is about. -/
theorem selfMention?_of_text (h : p.text = firstParameter params) :
    (selfMention? params).map Mention.range = (typeMention? p.type).map fun m => (m.behind p.front).range := by
  rw [selfMention?, ← firstParameter, ← h]
  simp only [Option.bind_eq_bind, p.cutAtText?_text, Option.bind_some, p.cutAtFirst?_colon]
  have hdrop : List.drop 4 ("self".toList ++ p.gap) = p.gap := rfl
  have hbehind : (⟨"self".toList ++ p.gap, ':' :: p.type⟩ : Cut).behind = p.type := rfl
  have hthrough : p.lead ++ (⟨"self".toList ++ p.gap, ':' :: p.type⟩ : Cut).through = p.front := by
    rw [SelfParameter.front, ← List.append_assoc "self".toList]
    rfl
  rw [hdrop, p.allBlank_lead, p.allBlank_gap, hbehind, hthrough]
  cases typeMention? p.type <;> rfl

/-- If retargeting finds a name, the first parameter is called `self`. -/
theorem exists_text_of_selfMention? (h : (selfMention? params).isSome) :
    ∃ p : SelfParameter, p.text = firstParameter params := by
  obtain ⟨m, hm⟩ := Option.isSome_iff_exists.1 h
  rw [selfMention?, ← firstParameter] at hm
  simp only [Option.bind_eq_bind, Option.bind_eq_some_iff] at hm
  obtain ⟨called, hcalled, typed, htyped, hm⟩ := hm
  split at hm
  · next hblank =>
    rw [Bool.and_eq_true] at hblank
    obtain ⟨rest, hafter⟩ := exists_of_cutAtText? hcalled
    have hwhole := whole_of_cutWhere _ hcalled
    rw [hafter, cutAtFirst?_append (forall_of_all (by decide))] at htyped
    obtain ⟨colon, hcolon, rfl⟩ := Option.map_eq_some_iff.1 htyped
    obtain ⟨hrest, -⟩ := eq_of_cutAtFirst? hcolon
    refine ⟨⟨called.before, colon.before, colon.behind, hblank.1, hblank.2⟩, ?_⟩
    rw [SelfParameter.text_eq, ← hwhole, Cut.whole, hafter, hrest]
  · cases hm

/-- The first piece of the list is the first parameter, trimmed, if this is not blank. -/
theorem head?_splitTopLevel (h : (firstParameter params).allBlank = false) :
    (params.splitTopLevel ',').head? = some (firstParameter params).trim := by
  have htrim : (firstParameter params).trim ≠ [] := by
    intro hnil
    obtain ⟨front, back, hwhole, hfront, hback⟩ := (firstParameter params).exists_blanks
    rw [hnil, List.append_nil] at hwhole
    rw [hwhole, allBlank, List.all_append, ← allBlank, ← allBlank, hfront, hback] at h
    cases h
  have hpieces : ∃ pieces, params.topLevelPieces ',' = (firstParameter params).trim :: pieces := by
    rw [topLevelPieces_eq, firstParameter]
    cases params.cutAtTopLevel? (· == ',') with
    | none => exact ⟨[], rfl⟩
    | some cut => exact ⟨_, rfl⟩
  obtain ⟨pieces, hpieces⟩ := hpieces
  rw [splitTopLevel, hpieces, List.filter_cons_of_pos (by simpa using htrim), List.head?_cons]

/-- The parser takes the first parameter for `self` just if it is called `self`. -/
theorem firstParamIsSelf_iff (h : (firstParameter params).allBlank = false) :
    firstParamIsSelf params = true ↔ ∃ p : SelfParameter, p.text = firstParameter params := by
  rw [firstParamIsSelf, head?_splitTopLevel h]
  dsimp only
  constructor
  · intro hself
    obtain ⟨front, back, hwhole, hfront, -⟩ := (firstParameter params).exists_blanks
    split at hself
    · next rest hrest =>
      obtain ⟨type, htype⟩ := List.head?_eq_some_iff.1 (eq_of_beq hself)
      obtain ⟨gap, hgap, rfl⟩ := (trimStart_eq_cons_iff (by decide)).1 htype
      refine ⟨⟨front, gap, type ++ back, hfront, hgap⟩, ?_⟩
      rw [SelfParameter.text_eq, hwhole, dropLead?_eq_some_iff.1 hrest]
      simp only [List.append_assoc, List.cons_append]
    · cases hself
  · rintro ⟨p, hp⟩
    have hcolon : isBlank ':' = false := by decide
    have htrim : p.text.trim = "self".toList ++ (p.gap ++ ':' :: p.type.trimEnd) := by
      rw [p.text_eq, ← List.append_assoc _ p.gap, ← List.append_assoc, trim_append_cons hcolon,
        trimStart_append p.allBlank_lead, trimStart_word (by decide), List.append_assoc]
    rw [← hp, htrim, dropLead?_append]
    dsimp only
    rw [(trimStart_eq_cons_iff hcolon).2 ⟨p.gap, p.allBlank_gap, rfl⟩, List.head?_cons, beq_self_eq_true]

/-- Where a rest of the type starts in the parameter. -/
theorem offsetOf_type {before rest : Text} (h : before ++ rest = p.type) :
    p.text.offsetOf rest = (p.front ++ before).size := by
  rw [SelfParameter.text, ← h, ← List.append_assoc, offsetOf_append]

/-- If a blank follows every `const`, the range is that of the word behind the qualifiers. -/
theorem range_of_constsSpaced (h : constsSpaced p.type = true) :
    ((typeMention? p.type).map fun m => (m.behind p.front).range) =
      if p.isNamed then some p.nameRange else none := by
  obtain ⟨before, hbefore⟩ := bareType_suffix p.type
  rw [typeMention?_eq (dropIndirections_of_constsSpaced h) hbefore, SelfParameter.isNamed]
  split
  · rw [SelfParameter.nameRange, offsetOf_type hbefore, ← size_append]
    rfl
  · rfl

/-- Otherwise it is that of a `const`. -/
theorem range_of_hasTightConst {before after : Text} (h : HasTightConst p.type before after)
    (hdrop : dropIndirections p.type = "const".toList ++ after) :
    ((typeMention? p.type).map fun m => (m.behind p.front).range) =
      some (Mention.range ⟨p.front ++ before, "const".toList, after⟩) := by
  have hlead := leadingWord_beq isIdentChar_of_mem_const after
  rw [h.behind_word] at hlead
  rw [typeMention?_eq hdrop h.whole, eq_of_beq hlead]
  rfl

/-- The word behind the qualifiers starts behind each `const` among them. -/
theorem lt_nameRange_of_hasTightConst {before after : Text} (h : HasTightConst p.type before after) :
    (p.front ++ before).size < p.nameRange.1 := by
  obtain ⟨more, hmore⟩ := bareType_suffix after
  have hconst : 0 < size "const".toList := by decide
  have hwhole : before ++ ("const".toList ++ more) ++ bareType p.type = p.type := by
    rw [← h.bareType_after, List.append_assoc, List.append_assoc, hmore, h.whole]
  rw [SelfParameter.nameRange, offsetOf_type hwhole, ← List.append_assoc, size_append _ ("const".toList ++ more),
    size_append "const".toList]
  omega

end FirstParameter

namespace ByOffset

/-- The parser and retargeting agree on `self`. Where retargeting finds a name the parser takes the first
parameter for `self`; and if the parser does, and the first parameter is not blank, this is blanks, the word,
blanks, a colon and a type. If what is left of the type without its qualifiers starts like a name, retargeting
finds exactly the word there just if a blank follows every `const`; without a blank behind one it finds a
`const` instead. -/
theorem selfRange_agrees (params : Text) :
    ∃ self found, firstParamIsSelf params = pure self ∧ selfRange params = pure found ∧
      (found.isSome = true → self = true) ∧
      ((firstParameter params).allBlank = false → self = true →
        ∃ p : SelfParameter, p.text = firstParameter params) ∧
      ∀ p : SelfParameter, p.text = firstParameter params →
        (p.isNamed = true → (found = some p.nameRange ↔ constsSpaced p.type = true)) ∧
        (p.isNamed = false → constsSpaced p.type = true → found = none) ∧
        (constsSpaced p.type = false → ∃ before after, HasTightConst p.type before after ∧
          found = some (Mention.range ⟨p.front ++ before, "const".toList, after⟩)) := by
  refine ⟨_, _, firstParamIsSelf_eq params, selfRange_eq params, fun h => ?_,
    fun hblank => (firstParamIsSelf_iff hblank).1, fun p hp => ?_⟩
  · rw [Option.isSome_map] at h
    obtain ⟨p, hp⟩ := exists_text_of_selfMention? h
    exact (firstParamIsSelf_iff (hp ▸ p.not_allBlank_text)).2 ⟨p, hp⟩
  · rw [selfMention?_of_text hp]
    cases hspaced : constsSpaced p.type with
    | true =>
      rw [range_of_constsSpaced hspaced]
      refine ⟨fun hnamed => ?_, fun hnamed _ => ?_, nofun⟩
      · rw [if_pos hnamed]
        exact iff_of_true rfl rfl
      · rw [hnamed, if_neg Bool.false_ne_true]
    | false =>
      obtain ⟨before, after, htight, hdrop⟩ := exists_hasTightConst hspaced
      rw [range_of_hasTightConst htight hdrop]
      refine ⟨fun _ => iff_of_false (fun h => ?_) Bool.false_ne_true, nofun,
        fun _ => ⟨before, after, htight, rfl⟩⟩
      have hlt := lt_nameRange_of_hasTightConst htight
      rw [← Option.some.inj h] at hlt
      exact Nat.lt_irrefl _ hlt

/-- A parameter with blanks in odd places, a qualified type and a comma in brackets. -/
def lampSelf : SelfParameter :=
  ⟨" ".toList, "\t".toList, " ?*const\n*Lamp(u8, 2)".toList, by decide, by decide⟩

/-- With another parameter behind it, it is taken for `self`, and the name in its type is found. -/
theorem selfRange_agrees_lamp :
    lampSelf.text = firstParameter (lampSelf.text ++ ", n: u8".toList) ∧ lampSelf.isNamed = true ∧
      constsSpaced lampSelf.type = true ∧ lampSelf.nameRange = (17, 21) ∧
      firstParamIsSelf (lampSelf.text ++ ", n: u8".toList) = pure true ∧
      selfRange (lampSelf.text ++ ", n: u8".toList) = pure (some (17, 21)) := by
  have htext : lampSelf.text = firstParameter (lampSelf.text ++ ", n: u8".toList) := by decide +kernel
  have hnamed : lampSelf.isNamed = true := by decide +kernel
  have hspaced : constsSpaced lampSelf.type = true := by decide +kernel
  have hrange : lampSelf.nameRange = (17, 21) := by decide +kernel
  obtain ⟨self, found, hself, hfound, hagree, -, hname⟩ := selfRange_agrees (lampSelf.text ++ ", n: u8".toList)
  have hlamp := ((hname lampSelf htext).1 hnamed).2 hspaced
  rw [hlamp] at hfound hagree
  rw [hagree rfl] at hself
  exact ⟨htext, hnamed, hspaced, hrange, hself, hrange ▸ hfound⟩

/-- A parameter in whose type no blank follows `const`. -/
def tightSelf : SelfParameter := ⟨[], [], " *const*A".toList, by decide, by decide⟩

/-- The parser takes it for `self`, and its type is about `A`, but it is `const` that is found, and that is
replaced by the name of the descendant. -/
theorem const_found_for_name :
    firstParameter tightSelf.text = tightSelf.text ∧ tightSelf.text.allBlank = false ∧
      bareType tightSelf.type = "A".toList ∧ tightSelf.nameRange = (13, 14) ∧
      firstParamIsSelf tightSelf.text = pure true ∧ selfRange tightSelf.text = pure (some (7, 12)) ∧
      retarget "fn init(self: *const*A) void \x7b\x7d".toList "A".toList "B".toList =
        pure "fn init(self: *B*A) void \x7b\x7d".toList := by
  have hself : ClassFlattening.firstParamIsSelf tightSelf.text = true := by decide +kernel
  have hfound : (selfMention? tightSelf.text).map Mention.range = some (7, 12) := by decide +kernel
  refine ⟨by decide +kernel, by decide +kernel, by decide +kernel, by decide +kernel, ?_, ?_, ?_⟩
  · rw [firstParamIsSelf_eq, hself]
  · rw [selfRange_eq, hfound]
  · rw [retarget_eq]
    exact congrArg pure (by decide +kernel)

end ByOffset

end ClassFlattening
