import ClassFlattening.Proofs.Occurrences
import ClassFlattening.Proofs.PassedText
import ClassFlattening.Proofs.ReadingBindings

/-!
# What is read as a field

A field is read off its element, the text in front of its comma, without what is taken for a comment: the name
is in front of the first colon, the type behind it up to a sign of equality outside all brackets, and the value
behind that. From this reading it follows that the texts of a field are trimmed, that a search for a comma does
not stop in them, and that its slashes stand behind double quotes.
-/

namespace ClassFlattening

open Text

/-- The texts of a field are trimmed, and its name is one. -/
structure Field.Trimmed (f : Field) : Prop where
  name : isIdentifier f.name = true
  type_ne_nil : f.type ≠ []
  type : f.type.trim = f.type
  value : ∀ value ∈ f.value, value.trim = value

/-- The text in front of the comma that ends a field, and what is behind the comma. -/
def cutElement (t : Text) : Text × Text :=
  match t.cutAtTopLevel? (· == ',') with
  | some cut => (cut.before, cut.behind)
  | none => (t, [])

/-- The type that a text behind a colon gives, and the value if it gives one. -/
def readTyped (t : Text) : Text × Option Text :=
  match t.cutAtTopLevel? (· == '=') with
  | some typed => (typed.before.trim, some typed.behind.trim)
  | none => (t.trim, none)

/-- A field is what is read in front of and behind a colon. -/
structure Field.IsReadAt (f : Field) (cut : Cut) : Prop where
  name : cut.before.trim = f.name
  unsigned : '=' ∉ cut.before
  identifier : isIdentifier f.name = true
  ne_extends : f.name ≠ "extends".toList
  ne_mixins : f.name ≠ "mixins".toList
  type : (readTyped cut.behind).1 = f.type
  type_ne_nil : f.type ≠ []
  value : ((readTyped cut.behind).2.filter fun v => !v.isEmpty) = f.value

section Reading

variable {f : Field} {t rest : Text}

/-- What makes a member a field. -/
theorem fieldMember_eq_field_iff {name type : Text} {value : Option Text} :
    fieldMember name type value = .field f ↔
      name = f.name ∧ f.name ≠ "extends".toList ∧ f.name ≠ "mixins".toList ∧ type = f.type ∧ f.type ≠ [] ∧
        (value.filter fun v => !v.isEmpty) = f.value := by
  rw [fieldMember]
  split
  · next hname =>
    refine iff_of_false (by simp) ?_
    rintro ⟨rfl, hne, -⟩
    exact hne hname
  · next hextends =>
    split
    · next hname =>
      refine iff_of_false (by simp) ?_
      rintro ⟨rfl, -, hne, -⟩
      exact hne hname
    · next hmixins =>
      split
      · next htype =>
        refine iff_of_false (by simp) ?_
        rintro ⟨-, -, -, rfl, hne, -⟩
        exact hne (List.isEmpty_iff.1 htype)
      · next htype =>
        rw [List.isEmpty_iff] at htype
        constructor
        · intro h
          cases h
          exact ⟨rfl, hextends, hmixins, rfl, htype, rfl⟩
        · rintro ⟨rfl, -, -, rfl, -, hvalue⟩
          rw [hvalue]

/-- Nothing is read of an element without a colon. -/
theorem readField_of_cut_none
    (h : (cutElement t).1.dropTrailingComment.cutAtFirst? (· == ':') = none) :
    readField t = (.nothing, t.cutLine.after) := by
  rw [cutElement] at h
  rw [readField]
  cases hcomma : t.cutAtTopLevel? (· == ',') <;>
    · rw [hcomma] at h
      dsimp only at h ⊢
      rw [h]

/-- What an element with a colon is read as, with a comma behind it or without one. -/
theorem readField_of_cut {cut : Cut}
    (h : (cutElement t).1.dropTrailingComment.cutAtFirst? (· == ':') = some cut) :
    readField t =
      if '=' ∈ cut.before ∨ isIdentifier cut.before.trim = false then (.nothing, t.cutLine.after)
      else (fieldMember cut.before.trim (readTyped cut.behind).1 (readTyped cut.behind).2, (cutElement t).2) := by
  rw [cutElement] at h ⊢
  rw [readField, readTyped]
  cases hcomma : t.cutAtTopLevel? (· == ',') <;>
    · rw [hcomma] at h
      dsimp only at h ⊢
      rw [h]
      dsimp only
      cases cut.behind.cutAtTopLevel? (· == '=') with
      | none => rfl
      | some typed => rfl

/-- A field is read exactly if it is read at the first colon of the text in front of the comma. -/
theorem readField_eq_field_iff :
    readField t = (.field f, rest) ↔
      (cutElement t).2 = rest ∧
        ∃ cut ∈ (cutElement t).1.dropTrailingComment.cutAtFirst? (· == ':'), f.IsReadAt cut := by
  cases hcut : (cutElement t).1.dropTrailingComment.cutAtFirst? (· == ':') with
  | none =>
    rw [readField_of_cut_none hcut]
    simp
  | some cut =>
    rw [readField_of_cut hcut]
    simp only [Option.mem_def, Option.some.injEq, exists_eq_left']
    split
    · next hnone =>
      refine iff_of_false (by simp) ?_
      rintro ⟨-, hfield⟩
      rcases hnone with hsign | hname
      · exact hfield.unsigned hsign
      · rw [hfield.name, hfield.identifier] at hname
        cases hname
    · next hsome =>
      rw [not_or, Bool.not_eq_false] at hsome
      rw [Prod.mk.injEq, fieldMember_eq_field_iff]
      constructor
      · rintro ⟨⟨hname, hextends, hmixins, htype, hne, hvalue⟩, hrest⟩
        exact ⟨hrest, hname, hsome.1, hname ▸ hsome.2, hextends, hmixins, htype, hne, hvalue⟩
      · rintro ⟨hrest, h⟩
        exact ⟨⟨h.name, h.ne_extends, h.ne_mixins, h.type, h.type_ne_nil, h.value⟩, hrest⟩

/-- No constant is a field. -/
theorem field?_readConstant (t : Text) : (readConstant t).1.field? = none := by
  have hreference : ∀ member rest, readReferenceBinding? t = some (member, rest) → member.field? = none := by
    intro member rest h
    simp only [readReferenceBinding?, Option.bind_eq_bind, Option.bind_eq_some_iff] at h
    obtain ⟨cut, -, h⟩ := h
    split at h
    · split at h
      · cases h
        rfl
      · split at h
        · cases h
          rfl
        · cases h
          rfl
    · cases h
  rw [readConstant]
  split
  · next read hread => exact hreference read.1 read.2 hread
  · split
    · rfl
    · split
      · rfl
      · dsimp only
        split
        · rfl
        · split <;> rfl

/-- A member that is a field is read by the reader of fields, behind no word that binds a constant. -/
theorem readField_of_read (h : Member.read t = (.field f, rest)) :
    readField t = (.field f, rest) ∧
      (t.dropQualifiers ["pub".toList, "inline".toList, "export".toList]).leadingWord ∉
        ["const".toList, "var".toList] := by
  rw [Member.read] at h
  split at h
  · cases h
  · split at h
    · split at h
      · cases h
      · cases h
    · split at h
      · cases h
      · split at h
        · have hnone := field?_readConstant t
          rw [h] at hnone
          cases hnone
        · next hbinder =>
          refine ⟨h, ?_⟩
          simpa using hbinder

end Reading

namespace Text.SlashesQuoted

variable {s t glue : Text}

/-- The front of a text has its slashes behind double quotes if the text has. -/
theorem of_append_left (h : (s ++ t).SlashesQuoted) : s.SlashesQuoted := by
  rw [slashesQuoted_iff] at h ⊢
  intro before after hs
  exact h before (after ++ t) (by rw [hs]; simp)

/-- What is behind a text without double quotes has its slashes behind double quotes if both have. -/
theorem of_append_right (hquote : '"' ∉ s) (h : (s ++ t).SlashesQuoted) : t.SlashesQuoted := by
  rw [slashesQuoted_iff] at h ⊢
  intro before after ht
  have hmem := h (s ++ before) after (by rw [ht]; simp)
  exact (List.mem_append.1 hmem).resolve_left hquote

/-- What stands between two texts may be exchanged for something else that starts with no slash and has
none. -/
theorem reglue {c : Char} {more : Text} (hquote : '"' ∉ glue) (hslash : '/' ∉ c :: more)
    (h : (s ++ (glue ++ t)).SlashesQuoted) : (s ++ c :: (more ++ t)).SlashesQuoted := by
  rw [slashesQuoted_iff] at h ⊢
  rw [List.mem_cons, not_or] at hslash
  have hc : c ∉ "//".toList := by
    have hslashes : ∀ d ∈ "//".toList, d = '/' := forall_of_all (by decide)
    intro hmem
    exact hslash.1 (hslashes c hmem).symm
  intro before after hoccurs
  rcases occurs_beside hc hoccurs with ⟨gap, rfl, -⟩ | ⟨gap, rfl, hgap⟩
  · exact h before (gap ++ (glue ++ t)) (by simp)
  · obtain ⟨inner, rfl, (hinner : t = inner ++ ("//".toList ++ after))⟩ := occurs_behind hslash.2 hgap
    have hmem := h (s ++ (glue ++ inner)) after (by rw [hinner]; simp only [List.append_assoc])
    simp only [List.mem_append, List.mem_cons] at hmem ⊢
    tauto

end Text.SlashesQuoted

namespace Text

/-- What is left in front of what is taken for a comment is apart from it, and has its slashes behind double
quotes; nothing is taken for a comment exactly if the text has its slashes behind double quotes. -/
theorem exists_comment (t : Text) :
    ∃ comment, t = t.dropTrailingComment ++ comment ∧ Apart t.dropTrailingComment comment ∧
      t.dropTrailingComment.SlashesQuoted ∧ (comment = [] ↔ t.SlashesQuoted) := by
  have hapart : Apart t [] := apart_of_head (by simp)
  cases hcut : t.cutAtText? "//".toList with
  | none =>
    have hquoted : t.SlashesQuoted := by
      intro cut hsome
      rw [hcut] at hsome
      cases hsome
    rw [dropTrailingComment_eq_self hquoted]
    exact ⟨[], (List.append_nil t).symm, hapart, hquoted, by simp [hquoted]⟩
  | some cut =>
    by_cases hquote : '"' ∈ cut.before
    · have hquoted : t.SlashesQuoted := by
        intro found hfound
        rw [hcut] at hfound
        cases hfound
        exact hquote
      rw [dropTrailingComment_eq_self hquoted]
      exact ⟨[], (List.append_nil t).symm, hapart, hquoted, by simp [hquoted]⟩
    · have hdropped : t.dropTrailingComment = cut.before := by
        rw [dropTrailingComment, hcut]
        exact if_neg hquote
      have hwhole : t = cut.before ++ cut.after := (whole_of_cutWhere _ hcut).symm
      obtain ⟨after, hafter⟩ := exists_of_cutAtText? hcut
      refine ⟨cut.after, hdropped ▸ hwhole, ?_, ?_, ?_⟩
      · rw [hdropped]
        intro c hc _ hhead
        rw [hafter] at hhead
        obtain rfl : '/' = c := Option.some.inj hhead
        obtain ⟨before, hbefore⟩ := List.getLast?_eq_some_iff.1 hc
        -- A slash in front of the first pair of slashes would make another pair.
        have hearlier : t = before ++ ("//".toList ++ '/' :: after) := by
          rw [hwhole, hafter, hbefore]
          simp
        have hlength := (prefix_of_cutAtText? (List.cons_ne_nil _ _) hcut hearlier).length_le
        rw [hbefore, List.length_append, List.length_singleton] at hlength
        omega
      · rw [hdropped, slashesQuoted_iff]
        intro before rest hbefore
        have hearlier : t = before ++ ("//".toList ++ (rest ++ cut.after)) := by
          rw [hwhole, hbefore]
          simp
        have hlength := (prefix_of_cutAtText? (List.cons_ne_nil _ _) hcut hearlier).length_le
        rw [hbefore, List.length_append, List.length_append] at hlength
        have htwo : "//".toList.length = 2 := rfl
        omega
      · refine iff_of_false (after_ne_nil_of_cutWhere _ hcut) ?_
        intro hquoted
        exact hquote (hquoted cut hcut)

end Text

section Element

variable {s t : Text}

/-- The element in front of a comma is a front of the text, in which no comma is found. -/
theorem cutElement_spec (t : Text) :
    (cutElement t).1 <+: t ∧ (cutElement t).1.cutAtTopLevel? (· == ',') = none := by
  rw [cutElement]
  split
  · next cut hcut =>
    obtain ⟨hwhole, hpass⟩ := passable_of_cutAtTopLevel? rfl (by decide) hcut
    refine ⟨?_, (passable_iff.1 hpass).2⟩
    conv_rhs => rw [hwhole]
    exact List.prefix_append _ _
  · next hnone => exact ⟨List.prefix_rfl, hnone⟩

/-- The element in front of a comma, where a search for a comma passes it. -/
theorem cutElement_of_passable (h : s.Passable (· == ',')) (t : Text) :
    cutElement (s ++ ',' :: t) = (s, t) := by
  rw [cutElement, (cutAtTopLevel?_eq_iff (by simp) rfl (by decide) t).2 h]
  rfl

/-- A comma ends the element in front of it exactly if a search for a comma passes the element. -/
theorem cutElement_iff (hne : t ≠ []) : (cutElement (s ++ ',' :: t)).2 = t ↔ s.Passable (· == ',') := by
  refine ⟨fun h => ?_, fun h => congrArg Prod.snd (cutElement_of_passable h t)⟩
  rw [cutElement] at h
  split at h
  · next cut hcut =>
    obtain ⟨hwhole, hpass⟩ := passable_of_cutAtTopLevel? rfl (by decide) hcut
    rw [show cut.behind = t from h, List.append_cancel_right_eq] at hwhole
    rw [hwhole]
    exact hpass
  · exact absurd h.symm hne

end Element

/-- No blank is a sign of equality. -/
theorem ne_equals_of_isBlank (c : Char) (h : isBlank c = true) : (c == '=') = false := by
  rw [beq_eq_false_iff_ne]
  rintro rfl
  exact absurd h (by decide)

/-- Behind a colon stands a type, or a type and a value with a sign of equality between them. -/
theorem readTyped_cases {t type : Text} {value : Option Text} (htype : (readTyped t).1 = type)
    (hvalue : ((readTyped t).2.filter fun v => !v.isEmpty) = value) :
    (t.cutAtTopLevel? (· == '=') = none ∧ t.trim = type ∧ value = none) ∨
      ∃ before behind : Text, t = before ++ '=' :: behind ∧ before.Passable (· == '=') ∧ before.trim = type ∧
        ∀ v ∈ value, v ≠ [] ∧ behind.trim = v := by
  rw [readTyped] at htype hvalue
  cases hcut : t.cutAtTopLevel? (· == '=') with
  | none =>
    simp only [hcut, Option.filter_none] at htype hvalue
    exact Or.inl ⟨rfl, htype, hvalue.symm⟩
  | some typed =>
    simp only [hcut] at htype hvalue
    obtain ⟨hwhole, hpass⟩ := passable_of_cutAtTopLevel? rfl (by decide) hcut
    refine Or.inr ⟨typed.before, typed.behind, hwhole, hpass, htype, fun v hv => ?_⟩
    rw [← hvalue] at hv
    obtain ⟨htrim, hne⟩ := Option.filter_eq_some_iff.1 hv
    exact ⟨by simpa using hne, Option.some.inj htrim⟩

section Field

variable {f : Field} {cut : Cut}

namespace Field.IsReadAt

/-- The texts of a field that is read are trimmed. -/
theorem trimmed (h : f.IsReadAt cut) : f.Trimmed := by
  rcases readTyped_cases h.type h.value with
    ⟨-, htype, hvalue⟩ | ⟨before, behind, -, -, htype, hvalue⟩
  · exact ⟨h.identifier, h.type_ne_nil, htype ▸ trim_trim _, by simp [hvalue]⟩
  · exact ⟨h.identifier, h.type_ne_nil, htype ▸ trim_trim _, fun v hv => (hvalue v hv).2 ▸ trim_trim _⟩

/-- No comma is found in the type and the value of a field that is read where none is found, and no sign of
equality in the type. The value is not blank. -/
theorem separate (h : f.IsReadAt cut) (hcomma : cut.behind.cutAtTopLevel? (· == ',') = none) :
    f.type.cutAtTopLevel? (· == '=') = none ∧ f.type.cutAtTopLevel? (· == ',') = none ∧
      ∀ value ∈ f.value, value ≠ [] ∧ value.cutAtTopLevel? (· == ',') = none := by
  rcases readTyped_cases h.type h.value with
    ⟨hnone, htype, hvalue⟩ | ⟨before, behind, hbehind, hpass, htype, hvalue⟩
  · rw [← htype, hvalue]
    exact ⟨cutAtTopLevel?_trim_eq_none ne_equals_of_isBlank hnone,
      cutAtTopLevel?_trim_eq_none ne_comma_of_isBlank hcomma, by simp⟩
  · have hapart : Apart before ('=' :: behind) := apart_cons (by decide)
    have hequals : Balanced (· == ',') ['='] := .of_plain (by decide)
    rw [hbehind] at hcomma
    have hbefore := cutAtTopLevel?_eq_none_of_append hapart hcomma
    have hpassed : before.Passable (· == ',') := passable_iff.2 ⟨(passable_iff.1 hpass).1, hbefore⟩
    have hrest : behind.cutAtTopLevel? (· == ',') = none := by
      rw [hpassed.cutAtTopLevel?_append hapart, Option.map_eq_none_iff] at hcomma
      have hsign := hequals.passable.cutAtTopLevel?_append (t := behind)
        (apart_concat (s := []) (c := '=') (by decide))
      rw [List.singleton_append, hcomma] at hsign
      exact Option.map_eq_none_iff.1 hsign.symm
    rw [← htype]
    refine ⟨cutAtTopLevel?_trim_eq_none ne_equals_of_isBlank (passable_iff.1 hpass).2,
      cutAtTopLevel?_trim_eq_none ne_comma_of_isBlank hbefore, fun value hsome => ?_⟩
    obtain ⟨hne, htrim⟩ := hvalue value hsome
    exact ⟨hne, htrim ▸ cutAtTopLevel?_trim_eq_none ne_comma_of_isBlank hrest⟩

/-- A field that is read where slashes stand behind double quotes has its slashes behind double quotes. -/
theorem slashesQuoted (h : f.IsReadAt cut) (hquoted : (cut.before ++ ':' :: cut.behind).SlashesQuoted) :
    f.element.SlashesQuoted := by
  have hblank : ∀ s : Text, s.allBlank = true → '"' ∉ s := by
    intro s hs hmem
    exact absurd (List.all_eq_true.1 hs _ hmem) (by decide)
  have hslash : '/' ∉ f.name := not_mem_of_isIdentifier h.identifier (by decide)
  have hcolon : '/' ∉ ": ".toList := by decide
  apply SlashesQuoted.append hslash
  apply SlashesQuoted.append hcolon
  have hbehind : cut.behind.SlashesQuoted := by
    have hfront : '"' ∉ cut.before ++ [':'] := by
      obtain ⟨front, back, hbefore, hfront, hback⟩ := cut.before.exists_blanks
      rw [h.name] at hbefore
      have hname : '"' ∉ f.name := not_mem_of_isIdentifier h.identifier (by decide)
      rw [hbefore]
      simp [hblank front hfront, hblank back hback, hname]
    apply SlashesQuoted.of_append_right hfront
    rw [List.append_assoc]
    exact hquoted
  rcases readTyped_cases h.type h.value with
    ⟨-, htype, hvalue⟩ | ⟨before, behind, hsign, -, htype, hvalue⟩
  · obtain ⟨front, back, hwhole, hfront, -⟩ := cut.behind.exists_blanks
    rw [hwhole, htype, List.append_assoc] at hbehind
    rw [hvalue, assigned, List.append_nil]
    exact (hbehind.of_append_right (hblank front hfront)).of_append_left
  · obtain ⟨front, back, hwhole, hfront, hback⟩ := before.exists_blanks
    obtain ⟨front', back', hwhole', hfront', -⟩ := behind.exists_blanks
    rw [hsign, hwhole, htype, hwhole', List.append_assoc, List.append_assoc] at hbehind
    have htyped := hbehind.of_append_right (hblank front hfront)
    cases hsome : f.value with
    | none =>
      rw [assigned, List.append_nil]
      exact htyped.of_append_left
    | some value =>
      rw [(hvalue value hsome).2] at htyped
      have hglue : '"' ∉ back ++ '=' :: front' := by simp [hblank back hback, hblank front' hfront']
      have hshort : (f.type ++ (back ++ '=' :: front' ++ value)).SlashesQuoted := by
        apply SlashesQuoted.of_append_left (t := back')
        have heq : f.type ++ (back ++ '=' :: front' ++ value) ++ back' =
            f.type ++ (back ++ '=' :: (front' ++ value ++ back')) := by simp
        rw [heq]
        exact htyped
      have hsigns : '/' ∉ ' ' :: "= ".toList := by decide
      exact SlashesQuoted.reglue hglue hsigns hshort

end Field.IsReadAt

end Field

end ClassFlattening
