import ClassFlattening.Proofs.Outline
import ClassFlattening.Proofs.Occurrences

/-!
# Reading fields, constants and references

A line of an outline is read as a member if the reader takes just the line and gives the member, whatever
follows it. This is shown here for the lines that bind a name: fields, constants and the references to a
parent and to mixins. What a line starts with tells its kind; the first sign behind the name tells the
name; and the texts are balanced in front of what ends the line.
-/

namespace ClassFlattening

open Text

/-- A line is read as a member. -/
structure ReadsAs (t : Text) (member : Member) : Prop where
  balanced : t.Balanced never
  head : ∀ c ∈ t.head?, isBlank c = false
  read : ∀ rest, Member.read (t ++ rest) = (member, rest)

section Plain

variable {ends : Char → Bool} {name t : Text}

/-- A character of an identifier is plain in front of characters that are none. -/
theorem isPlain_of_isIdentChar {c : Char} (h : isIdentChar c = true) (hends : ends c = false) :
    isPlain ends c = true := by
  have hsigns : ∀ d ∈ signs, isIdentChar d = false := forall_of_all (by decide)
  refine isPlain_of_not_mem ?_ hends
  intro hc
  rw [hsigns c hc] at h
  cases h

/-- An identifier is plain in front of characters that are in none. -/
theorem all_isPlain_of_isIdentifier (h : isIdentifier name = true)
    (hends : ∀ c, ends c = true → isIdentChar c = false) : name.all (isPlain ends) = true := by
  rw [List.all_eq_true]
  intro c hc
  have hchar := isIdentChar_of_mem h hc
  apply isPlain_of_isIdentChar hchar
  cases hend : ends c with
  | false => rfl
  | true => rw [hends c hend] at hchar; cases hchar

end Plain

section Slashes

variable {s t : Text} {c : Char}

/-- Every pair of slashes in a text stands behind a double quote if each occurrence does. -/
theorem Text.slashesQuoted_iff :
    t.SlashesQuoted ↔ ∀ before after, t = before ++ ("//".toList ++ after) → '"' ∈ before := by
  constructor
  · intro h before after ht
    obtain ⟨cut, hcut, hfront⟩ := exists_cutAtText?_of_occurs (List.cons_ne_nil '/' ['/']) before after
    have hwhole : before ++ ['/', '/'] ++ after = t := by
      rw [ht, List.append_assoc]
      rfl
    rw [hwhole] at hcut
    exact hfront.subset (h cut hcut)
  · intro h cut hcut
    obtain ⟨after, hafter⟩ := exists_of_cutAtText? hcut
    apply h cut.before after
    rw [← whole_of_cutWhere _ hcut, Cut.whole, hafter]

/-- A character that is no slash may stand between two texts. -/
theorem Text.SlashesQuoted.glue (hs : s.SlashesQuoted) (hc : c ≠ '/') (ht : t.SlashesQuoted) :
    SlashesQuoted (s ++ c :: t) := by
  rw [slashesQuoted_iff] at hs ht ⊢
  intro before after h
  have hnot : c ∉ "//".toList := by
    intro hmem
    have hslash : ∀ d ∈ "//".toList, d = '/' := forall_of_all (by decide)
    exact hc (hslash c hmem)
  rcases occurs_beside hnot h with ⟨gap, hbefore, -⟩ | ⟨gap, hbefore, hgap⟩
  · exact hs before gap hbefore
  · rw [hbefore]
    exact List.mem_append_right s (List.mem_cons_of_mem c (ht gap after hgap))

/-- Characters that are no slashes may stand in front of a text. -/
theorem Text.SlashesQuoted.append (hs : '/' ∉ s) (ht : t.SlashesQuoted) : SlashesQuoted (s ++ t) := by
  induction s with
  | nil => exact ht
  | cons c s ih =>
    rw [List.mem_cons, not_or] at hs
    have hnil : SlashesQuoted [] := by decide
    exact hnil.glue (Ne.symm hs.1) (ih hs.2)

/-- A text without slashes outside literals loses no comment. -/
theorem Text.dropTrailingComment_eq_self (h : t.SlashesQuoted) : t.dropTrailingComment = t := by
  rw [dropTrailingComment]
  split
  · next cut hcut => rw [if_pos (h cut hcut)]
  · rfl

end Slashes

section Bindings

variable {name value rest : Text}

/-- A visibility is no more than a qualifier. -/
theorem dropQualifiers_visibility {words : List Text} (hpub : "pub".toList ∈ words) (isPublic : Bool)
    (t : Text) : dropQualifiers words (visibility isPublic ++ t) = dropQualifiers words t := by
  cases isPublic with
  | false => rfl
  | true =>
    have hstep : dropQualifiers words ("pub".toList ++ ' ' :: t) = dropQualifiers words (' ' :: t) :=
      dropQualifiers_word (by decide) hpub (by decide)
    exact hstep.trans (dropQualifiers_blank (by decide))

/-- What starts like a constant is read as one. -/
theorem Member.read_const (isPublic : Bool) (t : Text) :
    Member.read (visibility isPublic ++ ("const ".toList ++ t)) =
      readConstant (visibility isPublic ++ ("const ".toList ++ t)) := by
  have hdrop : dropQualifiers ["pub".toList, "inline".toList, "export".toList]
      (visibility isPublic ++ ("const".toList ++ ' ' :: t)) = "const".toList ++ ' ' :: t := by
    rw [dropQualifiers_visibility (by decide)]
    exact dropQualifiers_other (by decide) (by decide) (by decide)
  have hslashes : "//".toList.isPrefixOf (visibility isPublic ++ ("const".toList ++ ' ' :: t)) = false := by
    cases isPublic with
    | false => rfl
    | true => rfl
  have hlead : leadingWord ("const".toList ++ ' ' :: t) = "const".toList :=
    leadingWord_append (forall_of_all (by decide)) (by decide)
  change Member.read (visibility isPublic ++ ("const".toList ++ ' ' :: t)) = _
  simp only [Member.read, hdrop, hslashes, startsBlock, hlead]
  rfl

/-- The characters of the start of a statement. -/
theorem isIdentChar_or_blank_of_mem_binding (hname : isIdentifier name = true) {isPublic : Bool}
    {c : Char} (hc : c ∈ binding isPublic name) : isIdentChar c = true ∨ c = ' ' := by
  have hpub : ∀ d ∈ "pub ".toList, isIdentChar d = true ∨ d = ' ' := forall_of_all (by decide)
  have hconst : ∀ d ∈ "const ".toList, isIdentChar d = true ∨ d = ' ' := forall_of_all (by decide)
  rw [binding, List.mem_append, List.mem_append] at hc
  rcases hc with hc | hc | hc
  · cases isPublic with
    | false => cases hc
    | true => exact hpub c hc
  · exact hconst c hc
  · exact Or.inl (isIdentChar_of_mem hname hc)

/-- No sign stands in the start of a statement. -/
theorem not_mem_binding (hname : isIdentifier name = true) (isPublic : Bool) {c : Char}
    (hc : isIdentChar c = false) (hspace : c ≠ ' ') : c ∉ binding isPublic name := by
  intro hmem
  rcases isIdentChar_or_blank_of_mem_binding hname hmem with h | h
  · rw [hc] at h
    cases h
  · exact hspace h

/-- The text between the name of a binding and the sign of equality: a blank, or a type. -/
def IsAnnotation (t : Text) : Prop := t = [' '] ∨ ∃ type, t = ':' :: type

/-- The name of a binding is found behind its qualifiers and in front of its type. -/
theorem bindingName_binding (hname : isIdentifier name = true)
    (hnot : name ∉ ["pub".toList, "const".toList, "var".toList]) (isPublic : Bool) {t : Text}
    (ht : IsAnnotation t) : bindingName (binding isPublic name ++ t) = name := by
  have hcolon : ∀ c ∈ name, (c != ':') = true := by
    intro c hc
    rw [bne_iff_ne]
    intro heq
    exact not_mem_of_isIdentifier hname (by decide) (heq ▸ hc)
  have hdrop : ∀ c u, isIdentChar c = false →
      dropQualifiers ["pub".toList, "const".toList, "var".toList] (binding isPublic name ++ c :: u) =
        name ++ c :: u := by
    intro c u hc
    have hconst : dropQualifiers ["pub".toList, "const".toList, "var".toList]
        ("const".toList ++ ' ' :: (name ++ c :: u)) = name ++ c :: u := by
      rw [dropQualifiers_word (by decide) (by decide) (by decide), dropQualifiers_blank (by decide)]
      exact dropQualifiers_other hname hnot hc
    rw [binding, List.append_assoc, dropQualifiers_visibility (by decide), List.append_assoc]
    exact hconst
  rw [bindingName]
  rcases ht with rfl | ⟨type, rfl⟩
  · rw [hdrop ' ' [] (by decide), List.takeWhile_append_of_pos hcolon]
    exact trim_around (s := []) rfl (trim_of_isIdentifier hname) (u := [' ']) rfl
  · rw [hdrop ':' type (by decide), List.takeWhile_append_of_pos hcolon,
      List.takeWhile_cons_of_neg (by decide), List.append_nil]
    exact trim_of_isIdentifier hname

/-- The search for a character on the first line passes a text without it and without a newline. -/
theorem Text.cutOnLine?_append {s t : Text} {c : Char} (hs : ∀ d ∈ s, d ≠ c ∧ d ≠ '\n') :
    (s ++ t).cutOnLine? c = (t.cutOnLine? c).map fun cut => ⟨s ++ cut.before, cut.after⟩ := by
  induction s with
  | nil =>
    cases h : t.cutOnLine? c with
    | none => rw [List.nil_append, h]; rfl
    | some cut => rw [List.nil_append, h]; rfl
  | cons d s ih =>
    have hrest := ih fun e he => hs e (List.mem_cons_of_mem d he)
    obtain ⟨hc, hline⟩ := hs d List.mem_cons_self
    rw [cutOnLine?] at hrest ⊢
    rw [List.cons_append, cutWhere_cons, beq_eq_false_iff_ne.2 hc, beq_eq_false_iff_ne.2 hline]
    simp only [Bool.false_eq_true, if_false, hrest, Option.map_map]
    rfl

/-- What stands between a name and the first sign of equality on its line, if there is one there. -/
theorem isAnnotation_of_cutOnLine? {type : Option Text} {t : Text} {cut : Cut}
    (h : (typed type ++ (" = ".toList ++ t)).cutOnLine? '=' = some cut) : IsAnnotation cut.before := by
  cases type with
  | none =>
    have hspace : ∀ d ∈ [' '], d ≠ '=' ∧ d ≠ '\n' := forall_of_all (by decide)
    have hcut : cutOnLine? ('=' :: ' ' :: t) '=' = some ⟨[], '=' :: ' ' :: t⟩ := by
      rw [cutOnLine?, cutWhere_cons]
      rfl
    have hfound := (cutOnLine?_append (t := '=' :: ' ' :: t) hspace).symm.trans h
    rw [hcut] at hfound
    cases hfound
    exact Or.inl rfl
  | some type =>
    have hcolon : ∀ d ∈ [':'], d ≠ '=' ∧ d ≠ '\n' := forall_of_all (by decide)
    have hfound := (cutOnLine?_append (t := ' ' :: type ++ (" = ".toList ++ t)) hcolon).symm.trans h
    obtain ⟨inner, -, rfl⟩ := Option.map_eq_some_iff.1 hfound
    exact Or.inr ⟨inner.before, rfl⟩

/-- What stands between a name and the first sign of equality, which is there. -/
theorem exists_annotation (type : Option Text) (t : Text) :
    ∃ cut, (typed type ++ (" = ".toList ++ t)).cutAtFirst? (· == '=') = some cut ∧
      IsAnnotation cut.before ∧ (type = none → cut.behind = ' ' :: t) := by
  cases type with
  | none =>
    have hspace : ∀ d ∈ [' '], (d == '=') = false := forall_of_all (by decide)
    have hcut : cutAtFirst? (· == '=') ([' '] ++ '=' :: (' ' :: t)) = some ⟨[' '], '=' :: ' ' :: t⟩ :=
      cutAtFirst?_self hspace rfl
    exact ⟨⟨[' '], '=' :: ' ' :: t⟩, hcut, Or.inl rfl, fun _ => rfl⟩
  | some type =>
    have hcolon : ∀ d ∈ [':'], (d == '=') = false := forall_of_all (by decide)
    have hsome : (cutAtFirst? (· == '=') (' ' :: type ++ (" = ".toList ++ t))).isSome := by
      rw [isSome_cutAtFirst?, List.any_append, List.any_append]
      have hsign : " = ".toList.any (· == '=') = true := by decide
      rw [hsign]
      simp
    obtain ⟨inner, hinner⟩ := Option.isSome_iff_exists.1 hsome
    have hcut := cutAtFirst?_append (t := ' ' :: type ++ (" = ".toList ++ t)) hcolon
    rw [hinner] at hcut
    exact ⟨_, hcut, Or.inr ⟨inner.before, rfl⟩, fun h => by cases h⟩

end Bindings

section Statements

variable {name value : Text} {type : Option Text} {isPublic : Bool}

/-- A statement up to its semicolon is balanced if its type and value are. -/
theorem balanced_bound (hname : isIdentifier name = true)
    (htype : ∀ t ∈ type, t.Balanced (· == ';')) (hvalue : value.Balanced (· == ';')) :
    (bound isPublic name type value).Balanced (· == ';') := by
  have hbinding : (binding isPublic name).all (isPlain (· == ';')) = true := by
    rw [List.all_eq_true]
    intro c hc
    rcases isIdentChar_or_blank_of_mem_binding hname hc with h | rfl
    · apply isPlain_of_isIdentChar h
      rw [beq_eq_false_iff_ne]
      intro heq
      exact not_mem_binding hname isPublic (by decide) (by decide) (heq ▸ hc)
    · rfl
  have hequals : " = ".toList.all (isPlain (· == ';')) = true := by decide
  apply Balanced.plain_append hbinding
  cases type with
  | none =>
    change Balanced _ (" = ".toList ++ value)
    exact .plain_append hequals hvalue
  | some type =>
    have hcolon : ": ".toList.all (isPlain (· == ';')) = true := by decide
    have hsigns : "= ".toList.all (isPlain (· == ';')) = true := by decide
    rw [typed, List.append_assoc]
    apply Balanced.plain_append hcolon
    exact (htype type rfl).glue (c := ' ') hvalue rfl hsigns

/-- The first sign of equality of a statement stands behind its name. -/
theorem exists_cut_of_bound (isPublic : Bool) (hname : isIdentifier name = true)
    (hnot : name ∉ ["pub".toList, "const".toList, "var".toList]) :
    ∃ cut, (bound isPublic name type value).cutAtFirst? (· == '=') = some cut ∧
      bindingName cut.before = name ∧ (type = none → cut.behind = ' ' :: value) := by
  obtain ⟨cut, hcut, hannotation, hbehind⟩ := exists_annotation type value
  refine ⟨⟨binding isPublic name ++ cut.before, cut.after⟩, ?_, ?_, hbehind⟩
  · rw [bound, cutAtFirst?_append, hcut]
    · rfl
    · intro c hc
      rw [beq_eq_false_iff_ne]
      intro heq
      exact not_mem_binding hname isPublic (by decide) (by decide) (heq ▸ hc)
  · exact bindingName_binding hname hnot isPublic hannotation

/-- What the search on the first line of a statement finds, it finds behind the name. -/
theorem bindingName_of_cutOnLine? (hname : isIdentifier name = true)
    (hnot : name ∉ ["pub".toList, "const".toList, "var".toList]) {rest : Text} {cut : Cut}
    (h : (bound isPublic name type value ++ rest).cutOnLine? '=' = some cut) :
    bindingName cut.before = name := by
  rw [bound, List.append_assoc, List.append_assoc, List.append_assoc, cutOnLine?_append] at h
  · obtain ⟨inner, hinner, rfl⟩ := Option.map_eq_some_iff.1 h
    exact bindingName_binding hname hnot isPublic (isAnnotation_of_cutOnLine? hinner)
  · intro c hc
    constructor
    · rintro rfl
      exact not_mem_binding hname isPublic (by decide) (by decide) hc
    · rintro rfl
      exact not_mem_binding hname isPublic (by decide) (by decide) hc

/-- A statement about another name names no parent and no mixins. -/
theorem readReferenceBinding?_eq_none (hname : isIdentifier name = true)
    (hnot : name ∉ ["pub".toList, "const".toList, "var".toList])
    (href : name ≠ "extends".toList ∧ name ≠ "mixins".toList) (rest : Text) :
    readReferenceBinding? (bound isPublic name type value ++ rest) = none := by
  cases hcut : (bound isPublic name type value ++ rest).cutOnLine? '=' with
  | none => rw [readReferenceBinding?, hcut]; rfl
  | some cut =>
    have hfound := bindingName_of_cutOnLine? hname hnot hcut
    rw [readReferenceBinding?, hcut]
    change (if bindingName cut.before = _ ∨ bindingName cut.before = _ then _ else none) = none
    rw [hfound, if_neg]
    exact fun h => h.elim href.1 href.2

/-- A statement is a constant or a block of properties by its name. -/
theorem readConstant_bound (hname : isIdentifier name = true)
    (hnot : name ∉ ["pub".toList, "const".toList, "var".toList])
    (href : name ≠ "extends".toList ∧ name ≠ "mixins".toList)
    (hbalanced : (bound isPublic name type value).Balanced (· == ';')) (rest : Text) :
    ∃ behind, (type = none → behind = ' ' :: value) ∧
      readConstant (bound isPublic name type value ++ ';' :: rest) =
        (if name = "properties".toList then .properties (readProperties (trim behind))
         else .constant ⟨name, bound isPublic name type value ++ [';']⟩, rest) := by
  obtain ⟨cut, hcut, hbinding, hbehind⟩ := exists_cut_of_bound isPublic hname hnot
  have hend := hbalanced.cutAtTopLevel? (c := ';') rfl rfl rfl rest
  refine ⟨cut.behind, hbehind, ?_⟩
  have hnonempty : ¬ name.isEmpty = true := by
    rw [List.isEmpty_iff]
    exact ne_nil_of_isIdentifier hname
  rw [readConstant, readReferenceBinding?_eq_none hname hnot href, hend]
  simp only [hcut, hbinding]
  by_cases hproperties : name = "properties".toList
  · rw [if_pos hproperties, if_pos hproperties]
    rfl
  · rw [if_neg hproperties, if_neg hproperties, if_neg hnonempty]
    rfl

/-- A statement is read like a constant. -/
theorem Member.read_bound (t : Text) :
    Member.read (bound isPublic name type value ++ t) = readConstant (bound isPublic name type value ++ t) := by
  rw [bound, binding, List.append_assoc, List.append_assoc, List.append_assoc, Member.read_const]

/-- A statement starts with a word. -/
theorem isBlank_head_bound (t : Text) :
    ∀ c ∈ (bound isPublic name type value ++ t).head?, isBlank c = false := by
  intro c hc
  cases isPublic with
  | false =>
    have hfirst : some 'c' = some c := hc
    cases hfirst
    decide
  | true =>
    have hfirst : some 'p' = some c := hc
    cases hfirst
    decide

/-- A statement whose parts are balanced is read as a member if the reader of constants gives it. -/
theorem readsAs_bound {member : Member} (hname : isIdentifier name = true)
    (htype : ∀ t ∈ type, t.Balanced (· == ';')) (hvalue : value.Balanced (· == ';'))
    (hread : ∀ rest, readConstant (bound isPublic name type value ++ ';' :: rest) = (member, rest)) :
    ReadsAs (bound isPublic name type value ++ [';']) member := by
  have hnever : ∀ c, never c = true → (c == ';') = true := fun _ h => by cases h
  have hsemicolon : Balanced never [';'] := by decide
  refine ⟨?_, isBlank_head_bound [';'], ?_⟩
  · exact ((balanced_bound hname htype hvalue).weaken hnever).append hsemicolon (apart_cons rfl)
  · intro rest
    rw [List.append_assoc, Member.read_bound]
    exact hread rest

end Statements

section Reserved

variable {name : Text}

/-- A name that is not reserved is no qualifier of a binding. -/
theorem not_qualifier_of_not_reserved (h : name ∉ reservedNames) :
    name ∉ ["pub".toList, "const".toList, "var".toList] := by
  have hsubset : ["pub".toList, "const".toList, "var".toList] ⊆ reservedNames := by decide
  exact fun hname => h (hsubset hname)

/-- A name that is not reserved stands for no part of a class. -/
theorem ne_of_not_reserved (h : name ∉ reservedNames) :
    name ≠ "extends".toList ∧ name ≠ "mixins".toList ∧ name ≠ "properties".toList := by
  refine ⟨?_, ?_, ?_⟩
  · rintro rfl
    exact h (by decide)
  · rintro rfl
    exact h (by decide)
  · rintro rfl
    exact h (by decide)

end Reserved

/-- The line of a constant is read as the constant. -/
theorem ConstantLine.readsAs_text {k : ConstantLine} (h : k.Canonical) :
    ReadsAs k.text (.constant ⟨k.name, k.text⟩) := by
  have hnot := not_qualifier_of_not_reserved h.notReserved
  obtain ⟨hextends, hmixins, hproperties⟩ := ne_of_not_reserved h.notReserved
  have htype : ∀ t ∈ k.type, t.Balanced (· == ';') := fun t ht => (h.type t ht).balanced
  apply readsAs_bound h.name htype h.value.balanced
  intro rest
  obtain ⟨behind, -, hread⟩ := readConstant_bound h.name hnot ⟨hextends, hmixins⟩
    (balanced_bound h.name htype h.value.balanced) rest
  rw [hread, if_neg hproperties]
  rfl

namespace Field

variable {f : Field}

/-- A name that is followed by a colon tells a field, unless it is a word that binds a constant. -/
theorem read_name (hname : isIdentifier f.name = true) (t : Text) :
    Member.read (f.name ++ ':' :: t) =
      if f.name = "const".toList ∨ f.name = "var".toList then readConstant (f.name ++ ':' :: t)
      else readField (f.name ++ ':' :: t) := by
  have hchars : ∀ c ∈ f.name, isIdentChar c = true := fun c => isIdentChar_of_mem hname
  have hslashes : "//".toList.isPrefixOf (f.name ++ ':' :: t) = false := by
    obtain ⟨c, more, hcons⟩ := List.exists_cons_of_ne_nil (ne_nil_of_isIdentifier hname)
    have hc : c ≠ '/' := by
      intro heq
      have hslash := hchars c (hcons ▸ List.mem_cons_self)
      rw [heq] at hslash
      exact absurd hslash (by decide)
    rw [hcons]
    change ('/' == c && _) = false
    rw [beq_eq_false_iff_ne.2 hc.symm, Bool.false_and]
  -- A name that is a qualifying word is dropped, and nothing else is.
  obtain ⟨word, hdrop, hword, hbinds⟩ : ∃ word : Text,
      dropQualifiers ["pub".toList, "inline".toList, "export".toList] (f.name ++ ':' :: t) = word ++ ':' :: t ∧
        (∀ c ∈ word, isIdentChar c = true) ∧
        ((word == "const".toList || word == "var".toList) = true ↔
          f.name = "const".toList ∨ f.name = "var".toList) := by
    by_cases hqualifier : f.name ∈ ["pub".toList, "inline".toList, "export".toList]
    · refine ⟨[], ?_, by simp, iff_of_false (by decide) ?_⟩
      · rw [dropQualifiers_word hname hqualifier (by decide), dropQualifiers_cons (by decide) (by decide)]
        rfl
      · rintro (heq | heq)
        · rw [heq] at hqualifier
          exact absurd hqualifier (by decide)
        · rw [heq] at hqualifier
          exact absurd hqualifier (by decide)
    · exact ⟨f.name, dropQualifiers_other hname hqualifier (by decide), hchars, by simp⟩
  have hspace : ("fn".toList ++ [' ']).isPrefixOf (word ++ ':' :: t) = false :=
    isPrefixOf_word hword (forall_of_all (by decide)) (by decide) (by decide) (by decide)
  have htab : ("fn".toList ++ ['\t']).isPrefixOf (word ++ ':' :: t) = false :=
    isPrefixOf_word hword (forall_of_all (by decide)) (by decide) (by decide) (by decide)
  have hafter : (word ++ ':' :: t).afterLeadingWord.trimStart = ':' :: t := by
    rw [afterLeadingWord_append hword (by decide)]
    exact List.dropWhile_cons_of_neg (by decide)
  have hblock : ∀ title, startsBlock (word ++ ':' :: t) title = false := by
    intro title
    rw [startsBlock, hafter]
    simp
  change "fn ".toList.isPrefixOf _ = false at hspace
  change "fn\t".toList.isPrefixOf _ = false at htab
  rw [Member.read, hdrop]
  simp only [hslashes, hspace, htab, hblock, leadingWord_append hword (show isIdentChar ':' = false by decide),
    hbinds, Bool.false_eq_true, if_false, Bool.or_self]

/-- A field up to its comma is balanced if its type and value are. -/
theorem balanced_element (hname : isIdentifier f.name = true) (htype : f.type.Balanced (· == ','))
    (hvalue : ∀ value ∈ f.value, value.Balanced (· == ',')) : f.element.Balanced (· == ',') := by
  have hplain : f.name.all (isPlain (· == ',')) = true := by
    apply all_isPlain_of_isIdentifier hname
    intro c hc
    rw [eq_of_beq hc]
    decide
  have hcolon : ": ".toList.all (isPlain (· == ',')) = true := by decide
  have hequals : "= ".toList.all (isPlain (· == ',')) = true := by decide
  refine .plain_append hplain (.plain_append hcolon ?_)
  cases hsome : f.value with
  | none => rwa [assigned, List.append_nil]
  | some value => exact htype.glue (c := ' ') (hvalue value hsome) rfl hequals

/-- The text behind the colon of a field is its type and its value. -/
theorem readType (hnot : f.name ∉ reservedNames)
    (htype : f.type.Writable endsType) (hvalue : ∀ value ∈ f.value, value.Writable (· == ',')) :
    (match cutAtTopLevel? (' ' :: (f.type ++ assigned f.value)) (· == '=') with
      | some typed => fieldMember f.name typed.before.trim (some typed.behind.trim)
      | none => fieldMember f.name (trim (' ' :: (f.type ++ assigned f.value))) none) = .field f := by
  obtain ⟨hextends, hmixins, -⟩ := ne_of_not_reserved hnot
  have hequals : ∀ c, (c == '=') = true → endsType c = true := by
    intro c hc
    rw [endsType, hc, Bool.or_true]
  have hspace : [' '].all (isPlain (· == '=')) = true := by decide
  have hblank : allBlank [' '] = true := rfl
  have hbalanced := htype.balanced.weaken hequals
  have hnonempty : ¬ f.type.isEmpty = true := by
    rw [List.isEmpty_iff]
    exact htype.ne_nil
  cases hsome : f.value with
  | none =>
    have hnone : cutAtTopLevel? (' ' :: f.type) (· == '=') = none :=
      (Balanced.plain_append hspace hbalanced).cutAtTopLevel?_eq_none
    have htrim := trim_around hblank htype.trim (u := []) rfl
    rw [List.append_nil] at htrim
    change trim (' ' :: f.type) = f.type at htrim
    rw [assigned, List.append_nil, hnone]
    simp only [htrim]
    rw [fieldMember, if_neg hextends, if_neg hmixins, if_neg hnonempty, Option.filter_none, ← hsome]
  | some value =>
    have hvalue := hvalue value hsome
    have hcut : cutAtTopLevel? (' ' :: (f.type ++ assigned (some value))) (· == '=') =
        some ⟨' ' :: f.type ++ [' '], '=' :: ' ' :: value⟩ := by
      have hback := (Balanced.plain_append hspace hbalanced).append (.of_plain hspace)
        (apart_cons (c := ' ') (t := []) rfl)
      have hwhole : ' ' :: (f.type ++ assigned (some value)) =
          ([' '] ++ f.type ++ [' ']) ++ '=' :: (' ' :: value) := by
        simp [assigned]
      rw [hwhole]
      exact hback.cutAtTopLevel? (c := '=') rfl rfl rfl _
    have htrim : trim (' ' :: f.type ++ [' ']) = f.type := trim_around hblank htype.trim hblank
    have htrim' := trim_around hblank hvalue.trim (u := []) rfl
    rw [List.append_nil] at htrim'
    change trim (' ' :: value) = value at htrim'
    rw [hcut]
    simp only [htrim, Cut.behind, List.tail_cons, htrim']
    rw [fieldMember, if_neg hextends, if_neg hmixins, if_neg hnonempty, Option.filter_some, ← hsome,
      if_pos]
    simpa using hvalue.ne_nil

/-- The line of a field is read as the field. -/
theorem readsAs_text (hname : isIdentifier f.name = true) (hnot : f.name ∉ reservedNames)
    (htype : f.type.Writable endsType) (hvalue : ∀ value ∈ f.value, value.Writable (· == ','))
    (hslashes : f.element.SlashesQuoted) : ReadsAs f.text (.field f) := by
  have hnever : ∀ c, never c = true → (c == ',') = true := fun _ h => by cases h
  have hcomma : ∀ c, (c == ',') = true → endsType c = true := by
    intro c hc
    rw [endsType, hc, Bool.true_or]
  have hbalanced := balanced_element hname (htype.balanced.weaken hcomma)
    fun value h => (hvalue value h).balanced
  refine ⟨?_, ?_, ?_⟩
  · exact (hbalanced.weaken hnever).append (.of_plain (by decide)) (apart_cons rfl)
  · intro c hc
    obtain ⟨d, more, hcons⟩ := List.exists_cons_of_ne_nil (ne_nil_of_isIdentifier hname)
    rw [text, element, hcons] at hc
    have hfirst : some d = some c := hc
    cases hfirst
    exact isBlank_of_isIdentChar (isIdentChar_of_mem hname (hcons ▸ List.mem_cons_self))
  · intro rest
    have hread : Member.read (f.element ++ ',' :: rest) = readField (f.element ++ ',' :: rest) := by
      have hwhole : f.element ++ ',' :: rest =
          f.name ++ ':' :: (' ' :: (f.type ++ assigned f.value) ++ ',' :: rest) := by
        rw [element, List.append_assoc]
        rfl
      have hbinder : ¬ (f.name = "const".toList ∨ f.name = "var".toList) := by
        rintro (heq | heq)
        · exact hnot (heq ▸ by decide)
        · exact hnot (heq ▸ by decide)
      rw [hwhole, read_name hname, if_neg hbinder]
    have hcut : f.element.cutAtFirst? (· == ':') =
        some ⟨f.name, ':' :: ' ' :: (f.type ++ assigned f.value)⟩ := by
      apply cutAtFirst?_self
      · intro c hc
        rw [beq_eq_false_iff_ne]
        intro heq
        exact not_mem_of_isIdentifier hname (by decide) (heq ▸ hc)
      · rfl
    have hsign : ¬ ('=' ∈ f.name ∨ isIdentifier f.name = false) := by
      rw [hname]
      have hequals := not_mem_of_isIdentifier hname (show isIdentChar '=' = false by decide)
      simpa using hequals
    change Member.read (f.element ++ [','] ++ rest) = _
    rw [List.append_assoc]
    change Member.read (f.element ++ ',' :: rest) = _
    rw [hread, readField, hbalanced.cutAtTopLevel? (c := ',') rfl rfl rfl rest]
    simp only [dropTrailingComment_eq_self hslashes, hcut,
      trim_of_isIdentifier hname, Cut.behind, List.tail_cons]
    rw [if_neg hsign]
    have htyped := readType hnot htype hvalue
    split
    · next hfound =>
      rw [hfound] at htyped
      exact congrArg (fun member => (member, rest)) htyped
    · next hfound =>
      rw [hfound] at htyped
      exact congrArg (fun member => (member, rest)) htyped

end Field

end ClassFlattening
