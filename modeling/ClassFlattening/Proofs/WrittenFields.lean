import ClassFlattening.Proofs.EmittedLines
import ClassFlattening.Proofs.FieldElements

/-!
# Fields as they are written

A flattened class writes each field on a line: its name, its type and its value, and a comma behind them. The
line is read back as the field just if nothing in it is taken for more or less than it was: no literal, comment
or bracket of the type or the value is open where the text ends, no pair of slashes is taken for a comment, and
the name is none that stands for something else.
-/

namespace ClassFlattening

open Text

/-- The line of a field in front of a text is read back: what is read at its name is the field, up to the
comma of the line and no further. -/
def Field.RestoredBefore (f : Field) (more : Text) : Prop :=
  Member.read ((f.line ++ more).drop indent.length) = (.field f, '\n' :: more)

instance (f : Field) (more : Text) : Decidable (f.RestoredBefore more) :=
  inferInstanceAs (Decidable (_ = _))

/-- The names with a meaning of their own at the start of a member: two that bind a constant and two that
stand for references. -/
def leadingNames : List Text := ["const".toList, "var".toList, "extends".toList, "mixins".toList]

section Written

variable {f : Field}

/-- A line is indented, and ends with a comma and a newline. -/
theorem drop_line (f : Field) (more : Text) :
    (f.line ++ more).drop indent.length = f.element ++ ',' :: '\n' :: more := by
  have hline : f.line ++ more = indent ++ (f.element ++ ',' :: '\n' :: more) := by
    rw [f.line_eq, Field.text]
    simp [indent]
  rw [hline, List.drop_left]

/-- A space is passed by every search for something else. -/
theorem balanced_space {ends : Char → Bool} (hends : ends ' ' = false) : Balanced ends [' '] := by
  apply Balanced.of_plain
  rw [List.all_cons, isPlain_iff.2 ⟨rfl, rfl, hends⟩]
  rfl

/-- A search outside all brackets behind a space. -/
theorem cutAtTopLevel?_space {ends : Char → Bool} (hends : ends ' ' = false) (t : Text) :
    cutAtTopLevel? (' ' :: t) ends = (t.cutAtTopLevel? ends).map fun cut => ⟨' ' :: cut.before, cut.after⟩ :=
  (balanced_space hends).passable.cutAtTopLevel?_append (apart_of_allBlank_left rfl)

/-- What is trimmed off a text that starts with a space, and what is behind it. -/
theorem eq_of_trim_space {s t u : Text} (hne : u ≠ []) (h : s ++ t = ' ' :: u) (htrim : s.trim = u) :
    s = ' ' :: u ∧ t = [] := by
  cases s with
  | nil => exact absurd htrim.symm hne
  | cons c s =>
    rw [List.cons_append, List.cons.injEq] at h
    obtain ⟨rfl, hrest⟩ := h
    have hlength := length_trim_le s
    rw [trim_cons (by decide)] at htrim
    rw [htrim, ← hrest, List.length_append] at hlength
    obtain rfl : t = [] := List.length_eq_zero_iff.1 (by omega)
    rw [← hrest, List.append_nil]
    exact ⟨rfl, rfl⟩

/-- Blanks in front of a sign of equality that is written with a space on either side. -/
theorem eq_of_blanks_equals {blanks t u : Text} (hblanks : blanks.allBlank = true)
    (h : blanks ++ '=' :: t = ' ' :: '=' :: ' ' :: u) : blanks = [' '] ∧ t = ' ' :: u := by
  cases blanks with
  | nil => exact absurd (List.cons.inj h).1 (by decide)
  | cons c blanks =>
    rw [List.cons_append, List.cons.injEq] at h
    obtain ⟨rfl, hrest⟩ := h
    cases blanks with
    | nil => exact ⟨rfl, (List.cons.inj hrest).2⟩
    | cons d blanks =>
      rw [List.cons_append, List.cons.injEq] at hrest
      rw [hrest.1, allBlank, List.all_cons, List.all_cons, Bool.and_eq_true, Bool.and_eq_true] at hblanks
      exact absurd hblanks.2.1 (by decide)

/-- Where the type and the value of a field are read off a front of what stands behind its name, the front
is all of it, and no sign of equality is found in the type. -/
theorem eq_nil_of_readTyped (h : f.Trimmed) {after comment : Text}
    (hwhole : after ++ comment = ' ' :: (f.type ++ assigned f.value)) (htype : (readTyped after).1 = f.type)
    (hvalue : ((readTyped after).2.filter fun v => !v.isEmpty) = f.value) :
    comment = [] ∧ (f.value = none → f.type.cutAtTopLevel? (· == '=') = none) ∧
      ∀ value ∈ f.value, value ≠ [] ∧ f.type.Passable (· == '=') := by
  rcases readTyped_cases htype hvalue with
    ⟨hnone, htrim, hnovalue⟩ | ⟨before, behind, rfl, hpass, htrim, hvalues⟩
  · rw [hnovalue, assigned, List.append_nil] at hwhole
    obtain ⟨rfl, rfl⟩ := eq_of_trim_space h.type_ne_nil hwhole htrim
    rw [cutAtTopLevel?_space rfl, Option.map_eq_none_iff] at hnone
    rw [hnovalue]
    exact ⟨rfl, fun _ => hnone, by simp⟩
  · rw [List.append_assoc, List.cons_append] at hwhole
    cases before with
    | nil => exact absurd htrim.symm h.type_ne_nil
    | cons c before =>
      rw [List.cons_append, List.cons.injEq] at hwhole
      obtain ⟨rfl, hrest⟩ := hwhole
      rw [trim_cons (by decide)] at htrim
      -- The text in front of the sign is the type with blanks behind it.
      obtain ⟨blanks, rfl⟩ : f.type <+: before := by
        have hlength := length_trim_le before
        rw [htrim] at hlength
        have hfront : f.type <+: before ++ '=' :: (behind ++ comment) := hrest ▸ List.prefix_append _ _
        exact List.prefix_of_prefix_length_le hfront (List.prefix_append _ _) hlength
      have hblanks := allBlank_of_trim_append h.type_ne_nil h.type htrim
      rw [List.append_assoc, List.append_cancel_left_eq] at hrest
      cases hsome : f.value with
      | none =>
        rw [hsome, assigned] at hrest
        exact absurd hrest (by simp)
      | some value =>
        rw [hsome] at hrest
        obtain ⟨rfl, hbehind⟩ := eq_of_blanks_equals hblanks hrest
        obtain ⟨hne, hread⟩ := hvalues value hsome
        obtain ⟨-, rfl⟩ := eq_of_trim_space hne hbehind hread
        have hspace : Passable (· == '=') [' '] := (balanced_space rfl).passable
        have htyped := (hspace.append_iff (apart_of_allBlank_left rfl)).1 hpass
        have hpassable := htyped.of_append_blanks rfl (by decide)
        refine ⟨rfl, by simp, fun other hother => ?_⟩
        obtain rfl : value = other := Option.some.inj hother
        exact ⟨hne, hpassable⟩

/-- The first colon of a field stands behind its name. -/
theorem cutAtFirst?_element (hname : isIdentifier f.name = true) :
    f.element.cutAtFirst? (· == ':') = some ⟨f.name, ':' :: ' ' :: (f.type ++ assigned f.value)⟩ := by
  apply cutAtFirst?_self
  · intro c hc
    rw [beq_eq_false_iff_ne]
    rintro rfl
    exact not_mem_of_isIdentifier hname (by decide) hc
  · rfl

/-- A search for a comma passes a field up to its comma exactly if it passes its type and its value. -/
theorem passable_element_iff (hname : isIdentifier f.name = true)
    (htype : ∀ value ∈ f.value, f.type.Passable (· == '=')) :
    f.element.Passable (· == ',') ↔
      f.type.Passable (· == ',') ∧ ∀ value ∈ f.value, value.Passable (· == ',') := by
  have hplain : f.name.all (isPlain (· == ',')) = true := by
    apply all_isPlain_of_isIdentifier hname
    intro c hc
    rw [eq_of_beq hc]
    decide
  have hfront : Balanced (· == ',') (f.name ++ [':'] ++ [' ']) := by
    rw [List.append_assoc]
    exact .plain_append hplain (.of_plain (by decide))
  have hwhole : f.element = f.name ++ [':'] ++ [' '] ++ (f.type ++ assigned f.value) := by simp [Field.element]
  rw [hwhole, hfront.passable.append_iff (apart_concat (by decide))]
  cases hsome : f.value with
  | none => simp [assigned]
  | some value =>
    have hequals : Balanced (· == ',') " = ".toList := .of_plain (by decide)
    have hapart : Apart f.type (assigned (some value)) := apart_cons (c := ' ') (by decide)
    have hvalue : (assigned (some value)).Passable (· == ',') ↔ value.Passable (· == ',') :=
      hequals.passable.append_iff (apart_concat (s := " =".toList) (c := ' ') (by decide))
    have hmem : ∀ other ∈ some value, other = value := fun other h => (Option.some.inj h).symm
    constructor
    · intro h
      have hnone := cutAtTopLevel?_eq_none_of_append hapart (passable_iff.1 h).2
      have hpass := passable_iff.2 ⟨(passable_iff.1 (htype value hsome)).1, hnone⟩
      refine ⟨hpass, fun other hother => ?_⟩
      rw [hmem other hother, ← hvalue]
      exact (hpass.append_iff hapart).1 h
    · rintro ⟨hpass, hpassable⟩
      exact (hpass.append_iff hapart).2 (hvalue.2 (hpassable value rfl))

/-- The type and the value of a field are read off what stands behind its name. -/
theorem readTyped_assigned (h : f.Trimmed) (htype : f.type.Passable (· == '=')) :
    readTyped (' ' :: (f.type ++ assigned f.value)) = (f.type, f.value) := by
  have hspace : Passable (· == '=') [' '] := (balanced_space rfl).passable
  have htrim : ∀ t : Text, t.trim = t → trim (' ' :: t) = t := fun t ht => (trim_cons (by decide) t).trans ht
  cases hsome : f.value with
  | none =>
    have hnone : cutAtTopLevel? (' ' :: f.type) (· == '=') = none := by
      rw [cutAtTopLevel?_space rfl, (passable_iff.1 htype).2, Option.map_none]
    rw [assigned, List.append_nil, readTyped, hnone]
    simp only [htrim f.type h.type]
  | some value =>
    have hpass : Passable (· == '=') (' ' :: (f.type ++ [' '])) :=
      (hspace.append_iff (apart_of_allBlank_left rfl)).2
        ((htype.append_iff (apart_of_allBlank_right rfl)).2 hspace)
    have hwhole : ' ' :: (f.type ++ assigned (some value)) = ' ' :: (f.type ++ [' ']) ++ '=' :: ' ' :: value := by
      simp [assigned]
    have hcut := (cutAtTopLevel?_eq_iff (c := '=') rfl rfl (by decide) (' ' :: value)).2 hpass
    have htyped : trim (' ' :: (f.type ++ [' '])) = f.type := trim_around (s := [' ']) rfl h.type rfl
    rw [hwhole, readTyped, hcut]
    simp only [htyped, Cut.behind, List.tail_cons, htrim value (h.value value hsome)]

/-- A field whose type is told from its value is read at the first colon of its line. -/
theorem isReadAt_element (h : f.Trimmed) (hnames : f.name ∉ leadingNames)
    (htype : f.type.Passable (· == '=')) (hvalue : ∀ value ∈ f.value, value ≠ []) :
    f.IsReadAt ⟨f.name, ':' :: ' ' :: (f.type ++ assigned f.value)⟩ := by
  have htyped := readTyped_assigned h htype
  refine
    { name := trim_of_isIdentifier h.name
      unsigned := not_mem_of_isIdentifier h.name (by decide)
      identifier := h.name
      ne_extends := fun heq => hnames (heq ▸ by decide)
      ne_mixins := fun heq => hnames (heq ▸ by decide)
      type := congrArg Prod.fst htyped
      type_ne_nil := h.type_ne_nil
      value := ?_ }
  rw [Cut.behind, List.tail_cons, htyped]
  cases hsome : f.value with
  | none => rfl
  | some value => simp [hvalue value hsome]

/-- The line of a field is read back exactly if its name has no meaning of its own, none of its slashes is
taken for a comment, its type and its value are passable and the value is not blank. -/
theorem restoredBefore_iff (h : f.Trimmed) (more : Text) :
    f.RestoredBefore more ↔
      f.name ∉ leadingNames ∧ f.element.SlashesQuoted ∧ f.type.Passable (· == '=') ∧
        f.type.Passable (· == ',') ∧ ∀ value ∈ f.value, value ≠ [] ∧ value.Passable (· == ',') := by
  have hname := h.name
  have hwhole : f.element ++ ',' :: '\n' :: more =
      f.name ++ ':' :: (' ' :: (f.type ++ assigned f.value) ++ ',' :: '\n' :: more) := by
    rw [Field.element, List.append_assoc]
    rfl
  rw [Field.RestoredBefore, drop_line, hwhole, Field.read_name hname, ← hwhole]
  split
  · next hbinder =>
    refine iff_of_false (fun hread => ?_) (fun hnames => hnames.1 ?_)
    · have hnone := field?_readConstant (f.element ++ ',' :: '\n' :: more)
      rw [hread] at hnone
      cases hnone
    · rw [leadingNames, List.mem_cons, List.mem_cons]
      exact hbinder.imp_right Or.inl
  · next hbinder =>
    rw [readField_eq_field_iff, cutElement_iff (List.cons_ne_nil _ _)]
    constructor
    · rintro ⟨hpass, cut, hcut, hat⟩
      rw [cutElement_of_passable hpass] at hcut
      obtain ⟨comment, hcomment, -, -, hquoted⟩ := exists_comment f.element
      have hfirst := cutAtFirst?_append_of_some hcut comment
      rw [← hcomment, cutAtFirst?_element hname, Option.some.injEq, Cut.mk.injEq,
        (eq_of_cutAtFirst? hcut).2, List.cons_append, List.cons.injEq] at hfirst
      obtain ⟨hnil, hnone, hsome⟩ := eq_nil_of_readTyped h hfirst.2.2.symm hat.type hat.value
      obtain ⟨hcomma, hvalue⟩ := (passable_element_iff hname fun v hv => (hsome v hv).2).1 hpass
      have hequals : f.type.Passable (· == '=') := by
        cases hcase : f.value with
        | none => exact passable_iff.2 ⟨(passable_iff.1 hcomma).1, hnone hcase⟩
        | some value => exact (hsome value hcase).2
      refine ⟨?_, hquoted.1 hnil, hequals, hcomma, fun v hv => ⟨(hsome v hv).1, hvalue v hv⟩⟩
      simp only [leadingNames, List.mem_cons, List.not_mem_nil, or_false, not_or]
      rw [not_or] at hbinder
      exact ⟨hbinder.1, hbinder.2, hat.ne_extends, hat.ne_mixins⟩
    · rintro ⟨hnames, hquoted, hequals, hcomma, hvalue⟩
      have hpass := (passable_element_iff hname fun _ _ => hequals).2 ⟨hcomma, fun v hv => (hvalue v hv).2⟩
      rw [cutElement_of_passable hpass, dropTrailingComment_eq_self hquoted]
      exact ⟨hpass, _, cutAtFirst?_element hname,
        isReadAt_element h hnames hequals fun v hv => (hvalue v hv).1⟩

end Written

end ClassFlattening
