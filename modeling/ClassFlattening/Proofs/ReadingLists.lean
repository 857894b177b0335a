import ClassFlattening.Proofs.ReadingBindings

/-!
# Reading references and properties

A parent, the mixins and the properties of a class are bindings of three names that no constant has. The
value of the first two ends with its line or its semicolon, and a comment is taken off its end. Lists are
written in braces, so what stands between their braces is found by matching them, and the parts are what
the commas between the braces separate. The parts of a property are its options, each with a label.
-/

namespace ClassFlattening

open Text

section References

variable {name value : Text}

/-- Whether a character ends the value of a binding that names other classes. -/
def endsBinding (c : Char) : Bool := c == ';' || c == ',' || c == '\n'

/-- The first sign of equality of a statement without a type stands behind its name. -/
theorem cutOnLine?_bound (hname : isIdentifier name = true) (isPublic : Bool) (t : Text) :
    (bound isPublic name none value ++ t).cutOnLine? '=' =
      some ⟨binding isPublic name ++ [' '], '=' :: ' ' :: (value ++ t)⟩ := by
  have hfront : ∀ c ∈ binding isPublic name ++ [' '], c ≠ '=' ∧ c ≠ '\n' := by
    intro c hc
    rcases List.mem_append.1 hc with hc | hc
    · constructor
      · rintro rfl
        exact not_mem_binding hname isPublic (by decide) (by decide) hc
      · rintro rfl
        exact not_mem_binding hname isPublic (by decide) (by decide) hc
    · rw [List.mem_singleton.1 hc]
      decide
  have hwhole : bound isPublic name none value ++ t =
      binding isPublic name ++ [' '] ++ '=' :: ' ' :: (value ++ t) := by
    rw [bound, List.append_assoc, List.append_assoc, List.append_assoc (binding isPublic name)]
    rfl
  have hstop : cutOnLine? ('=' :: ' ' :: (value ++ t)) '=' = some ⟨[], '=' :: ' ' :: (value ++ t)⟩ := by
    rw [cutOnLine?, cutWhere_cons]
    rfl
  rw [hwhole, cutOnLine?_append hfront, hstop, Option.map_some, List.append_nil]

/-- The value of a binding ends in front of its semicolon. -/
theorem readBound_value (hvalue : value.Balanced endsBinding) (rest : Text) :
    readBound (' ' :: (value ++ ';' :: rest)) = (' ' :: value, rest) := by
  have hspace : [' '].all (isPlain endsBinding) = true := by decide
  have hend : cutAtTopLevel? (' ' :: (value ++ ';' :: rest)) endsBinding =
      some ⟨' ' :: value, ';' :: rest⟩ :=
    (Balanced.plain_append hspace hvalue).cutAtTopLevel? (c := ';') rfl rfl rfl rest
  rw [readBound]
  split
  · next hended =>
    cases hend.symm.trans hended
    rfl
  · next hnone => cases hend.symm.trans hnone

/-- The value of a binding without its blanks. -/
theorem trim_value (hslashes : value.SlashesQuoted) (htrim : value.trim = value) :
    trim (dropTrailingComment (' ' :: value)) = value := by
  have hspace : '/' ∉ [' '] := by decide
  have hkept : dropTrailingComment (' ' :: value) = ' ' :: value :=
    dropTrailingComment_eq_self (.append hspace hslashes)
  have htrimmed := trim_around (s := [' ']) rfl htrim (u := []) rfl
  rw [List.append_nil] at htrimmed
  rw [hkept]
  exact htrimmed

/-- What a binding of the parent or the mixins is read as, given its value. -/
theorem readReferenceBinding?_of_readBound {t rest : Text} {cut : Cut}
    (hcut : t.cutOnLine? '=' = some cut) (hread : readBound cut.behind = (value, rest)) :
    readReferenceBinding? t =
      if bindingName cut.before = "extends".toList ∨ bindingName cut.before = "mixins".toList then
        if bindingName cut.before = "mixins".toList then
          some (.mixins (readReferences (trim (dropTrailingComment value))), rest)
        else if (trim (dropTrailingComment value)).isEmpty then some (.nothing, rest)
        else some (.parent (trim (dropTrailingComment value)), rest)
      else none := by
  rw [readReferenceBinding?, hcut]
  simp only [Option.bind_eq_bind, Option.bind_some, hread]
  rfl

/-- The line of a parent is read as the parent. -/
theorem Outline.readsAs_parentText {reference : Text} (h : reference.Writable endsReference)
    (hline : reference.Balanced (· == '\n')) (hslashes : reference.SlashesQuoted) :
    ReadsAs (parentText reference) (.parent reference) := by
  have hsemicolon : ∀ c, (c == ';') = true → endsReference c = true := by
    intro c hc
    rw [endsReference, hc]
    rfl
  have hident : isIdentifier "extends".toList = true := by decide
  have hnot : "extends".toList ∉ ["pub".toList, "const".toList, "var".toList] := by decide
  apply readsAs_bound hident (by simp) (h.balanced.weaken hsemicolon)
  intro rest
  have hvalue : reference.Balanced endsBinding := h.balanced.or hline
  have hread : readReferenceBinding? (bound true "extends".toList none reference ++ ';' :: rest) =
      some (.parent reference, rest) := by
    rw [readReferenceBinding?_of_readBound (cutOnLine?_bound hident true _) (readBound_value hvalue rest),
      bindingName_binding hident hnot true (Or.inl rfl), if_pos (Or.inl rfl), if_neg (by decide),
      trim_value hslashes h.trim, if_neg]
    rw [List.isEmpty_iff]
    exact h.ne_nil
  rw [readConstant, hread]

end References

section Braced

variable {parts : List Text}

/-- The text in the braces of a list is balanced if its parts are. -/
theorem balanced_spaced (h : ∀ part ∈ parts, part.Balanced never) : (spaced parts).Balanced never := by
  have hspace : allBlank [' '] = true := rfl
  exact (balanced_listed h rfl rfl).around hspace hspace fun _ _ => rfl

/-- A list in braces is balanced if its parts are. -/
theorem balanced_braced {ends : Char → Bool} (hdot : isPlain ends '.' = true)
    (hbrace : ends '{' = false) (h : ∀ part ∈ parts, part.Balanced never) :
    (braced parts).Balanced ends := by
  have hfront : ['.'].all (isPlain ends) = true := by
    rw [List.all_cons, hdot]
    rfl
  have hbraces : Balanced ends ('{' :: spaced parts ++ ['}']) :=
    Balanced.bracket rfl hbrace (balanced_spaced h)
  exact .plain_append hfront hbraces

/-- A list in braces is trimmed. -/
theorem trim_braced (parts : List Text) : (braced parts).trim = braced parts := by
  apply trim_eq_self
  · intro c hc
    have hfirst : some '.' = some c := hc
    cases hfirst
    decide
  · intro c hc
    have hwhole : braced parts = '.' :: '{' :: spaced parts ++ ['}'] := rfl
    rw [hwhole, List.getLast?_concat] at hc
    cases hc
    decide

/-- The first brace of a list in braces is the second character. -/
theorem cutAtFirst?_braced (parts : List Text) :
    (braced parts).cutAtFirst? (· == '{') = some ⟨['.'], '{' :: spaced parts ++ ['}']⟩ :=
  cutAtFirst?_self (s := ['.']) (forall_of_all (by decide)) rfl

/-- The references of a list in braces are its parts. -/
theorem readReferences_braced (h : ∀ part ∈ parts, part.Writable (· == ',')) :
    readReferences (braced parts) = parts := by
  have hclosed : cutAfterLast (· == '}') (spaced parts ++ ['}']) = ⟨spaced parts ++ ['}'], []⟩ := by
    simp [cutAfterLast]
  have hmem : '}' ∈ spaced parts ++ ['}'] := List.mem_append_right _ List.mem_cons_self
  have hspace : allBlank [' '] = true := rfl
  rw [readReferences, cutAtFirst?_braced]
  change splitTopLevel (if '}' ∈ spaced parts ++ ['}'] then _ else _) ',' = _
  rw [if_pos hmem]
  change splitTopLevel (cutAfterLast _ (spaced parts ++ ['}'])).before.dropLast ',' = _
  rw [hclosed, List.dropLast_concat, spaced, splitTopLevel_listed h hspace hspace]

/-- The text in the braces of a list is found. -/
theorem bracedText?_braced (h : ∀ part ∈ parts, part.Balanced never) :
    bracedText? (braced parts) = some (spaced parts) := by
  have hclosed : cutAtMatching? ('{' :: spaced parts ++ ['}']) '{' '}' =
      some ⟨'{' :: spaced parts, ['}']⟩ :=
    (balanced_spaced h).cutAtMatching? rfl []
  rw [bracedText?, cutAtFirst?_braced]
  simp only [Option.bind_eq_bind, Option.bind_some, hclosed]
  rfl

/-- The line of the mixins is read as the mixins. -/
theorem Outline.readsAs_mixinsText (h : ∀ part ∈ parts, part.Writable (· == ','))
    (hslashes : (braced parts).SlashesQuoted) : ReadsAs (mixinsText parts) (.mixins parts) := by
  have hnever : ∀ part ∈ parts, part.Balanced never := fun part hpart =>
    (h part hpart).balanced.weaken fun _ hc => by cases hc
  have hident : isIdentifier "mixins".toList = true := by decide
  have hnot : "mixins".toList ∉ ["pub".toList, "const".toList, "var".toList] := by decide
  apply readsAs_bound hident (by simp) (balanced_braced rfl rfl hnever)
  intro rest
  have hread : readReferenceBinding? (bound true "mixins".toList none (braced parts) ++ ';' :: rest) =
      some (.mixins parts, rest) := by
    rw [readReferenceBinding?_of_readBound (cutOnLine?_bound hident true _)
      (readBound_value (balanced_braced rfl rfl hnever) rest), bindingName_binding hident hnot true (Or.inl rfl),
      if_pos (Or.inr rfl), if_pos rfl, trim_value hslashes (trim_braced parts),
      readReferences_braced h]
  rw [readConstant, hread]

end Braced

section Labelled

variable {label value : Text}

/-- A labelled value is cut in front of its sign of equality. -/
theorem cutAtFirst?_labelled (hlabel : isIdentifier label = true) (value : Text) :
    (labelled label value).cutAtFirst? (· == '=') =
      some ⟨'.' :: (label ++ [' ']), '=' :: ' ' :: value⟩ := by
  have hfront : ∀ c ∈ '.' :: (label ++ [' ']), (c == '=') = false := by
    intro c hc
    rw [beq_eq_false_iff_ne]
    rintro rfl
    rw [List.mem_cons, List.mem_append] at hc
    rcases hc with hc | hc | hc
    · cases hc
    · exact not_mem_of_isIdentifier hlabel (by decide) hc
    · exact absurd hc (by decide)
  have hwhole : labelled label value = '.' :: (label ++ [' ']) ++ '=' :: ' ' :: value := by
    simp [labelled]
  rw [hwhole]
  exact cutAtFirst?_self hfront rfl

/-- The label of a value is what stands behind its dot. -/
theorem dropLeading_label (hlabel : isIdentifier label = true) :
    dropLeading (trim ('.' :: (label ++ [' ']))) '.' = label := by
  have hdot : trim ('.' :: label) = '.' :: label :=
    trim_cons_append (s := []) (by decide) (ne_nil_of_isIdentifier hlabel) (trim_of_isIdentifier hlabel)
  have hblank : allBlank [' '] = true := rfl
  have htrim := trim_around (s := []) rfl hdot hblank
  change trim ('.' :: (label ++ [' '])) = _ at htrim
  rw [htrim, dropLeading, List.dropWhile_cons_of_pos rfl]
  obtain ⟨c, more, hcons⟩ := List.exists_cons_of_ne_nil (ne_nil_of_isIdentifier hlabel)
  rw [hcons]
  apply List.dropWhile_cons_of_neg
  rw [beq_iff_eq]
  rintro rfl
  exact not_mem_of_isIdentifier hlabel (c := '.') (by decide) (hcons ▸ List.mem_cons_self)

/-- A labelled value may be written in a list if the value may. -/
theorem writable_labelled (hlabel : isIdentifier label = true) (h : value.Writable (· == ',')) :
    (labelled label value).Writable (· == ',') := by
  have hplain : label.all (isPlain (· == ',')) = true := by
    apply all_isPlain_of_isIdentifier hlabel
    intro c hc
    rw [eq_of_beq hc]
    decide
  have hdot : ['.'].all (isPlain (· == ',')) = true := by decide
  have hequals : " = ".toList.all (isPlain (· == ',')) = true := by decide
  refine ⟨List.cons_ne_nil _ _, ?_, ?_⟩
  · rw [labelled, ← List.append_assoc]
    exact trim_cons_append (by decide) h.ne_nil h.trim
  · exact .plain_append hdot (.plain_append hplain (.plain_append hequals h.balanced))

end Labelled

namespace PropertyLine

variable {p : PropertyLine}

/-- What an option of a property says. -/
theorem withOption_labelled (q : Property) {key value : Text} (hkey : isIdentifier key = true)
    (hvalue : value.trim = value) :
    q.withOption (labelled key value) =
      if key = "type".toList then { q with type := value }
      else if key = "access".toList ∧ value.dropLeading '.' = "read_only".toList then
        { q with access := .readOnly }
      else if key = "default".toList then { q with value := some value }
      else q := by
  rw [Property.withOption, cutAtFirst?_labelled hkey]
  simp only [dropLeading_label hkey, Cut.behind, List.tail_cons, trim_blank_cons (show isBlank ' ' = true by decide) hvalue]

/-- The option of a type. -/
theorem withOption_type (q : Property) {type : Text} (htype : type.trim = type) :
    q.withOption (labelled "type".toList type) = { q with type } := by
  rw [withOption_labelled q (by decide) htype, if_pos rfl]

/-- The option of an access makes a property read only or leaves it alone. -/
theorem withOption_access (q : Property) (access : Access) :
    q.withOption (labelled "access".toList access.text) =
      if access = .readOnly then { q with access := .readOnly } else q := by
  cases access with
  | readOnly =>
    rw [withOption_labelled q (by decide) (by decide), if_neg (by decide), if_pos (by decide), if_pos rfl]
  | readWrite =>
    rw [withOption_labelled q (by decide) (by decide), if_neg (by decide), if_neg (by decide),
      if_neg (by decide), if_neg (by decide)]

/-- The option of a default value. -/
theorem withOption_default (q : Property) {value : Text} (hvalue : value.trim = value) :
    q.withOption (labelled "default".toList value) = { q with value := some value } := by
  have hkey : ¬ ("default".toList = "access".toList ∧ value.dropLeading '.' = "read_only".toList) :=
    fun h => absurd h.1 (by decide)
  rw [withOption_labelled q (by decide) hvalue, if_neg (by decide), if_neg hkey, if_pos rfl]

/-- The options of a property say what it is. -/
theorem foldl_withOption_options (h : p.Canonical) :
    p.options.foldl Property.withOption ⟨p.name, [], none, .readWrite⟩ = p.property := by
  have hvalue : ∀ value ∈ p.value, value.trim = value := fun value hv => (h.value value hv).trim
  rw [options, List.foldl_cons, withOption_type _ h.type.trim, List.foldl_append, property]
  cases haccess : p.access with
  | none =>
    cases hsome : p.value with
    | none => rfl
    | some value => exact withOption_default _ (hvalue value hsome)
  | some access =>
    rw [Option.map_some, Option.toList_some, List.foldl_cons, List.foldl_nil, withOption_access]
    cases hsome : p.value with
    | none =>
      cases access with
      | readOnly => rfl
      | readWrite => rfl
    | some value =>
      rw [Option.map_some, Option.toList_some, List.foldl_cons, List.foldl_nil,
        withOption_default _ (hvalue value hsome)]
      cases access with
      | readOnly => rfl
      | readWrite => rfl

/-- Every option of a property may be written in a list. -/
theorem writable_of_mem_options (h : p.Canonical) {option : Text} (hoption : option ∈ p.options) :
    option.Writable (· == ',') := by
  rw [options, List.mem_cons, List.mem_append, Option.mem_toList, Option.mem_toList] at hoption
  rcases hoption with rfl | haccess | hvalue
  · exact writable_labelled (by decide) h.type
  · obtain ⟨access, -, rfl⟩ := Option.map_eq_some_iff.1 haccess
    cases access with
    | readOnly => exact writable_labelled (by decide) (by decide)
    | readWrite => exact writable_labelled (by decide) (by decide)
  · obtain ⟨value, hsome, rfl⟩ := Option.map_eq_some_iff.1 hvalue
    exact writable_labelled (by decide) (h.value value hsome)

/-- A property may be written in a list. -/
theorem writable_text (h : p.Canonical) : p.text.Writable (· == ',') := by
  have hoptions : ∀ option ∈ p.options, option.Balanced never := fun option ho =>
    (writable_of_mem_options h ho).balanced.weaken fun _ hc => by cases hc
  exact writable_labelled h.name ⟨List.cons_ne_nil _ _, trim_braced _, balanced_braced (by decide) rfl hoptions⟩

/-- The text of a property is read as the property. -/
theorem readProperty?_text (h : p.Canonical) : readProperty? p.text = some p.property := by
  have hoptions : ∀ option ∈ p.options, option.Balanced never := fun option ho =>
    (writable_of_mem_options h ho).balanced.weaken fun _ hc => by cases hc
  have hsplit : (spaced p.options).splitTopLevel ',' = p.options := by
    have hblank : allBlank [' '] = true := rfl
    exact splitTopLevel_listed (fun option ho => writable_of_mem_options h ho) hblank hblank
  have htrim : trim (' ' :: braced p.options) = braced p.options :=
    trim_blank_cons (by decide) (trim_braced _)
  have hnonempty : ¬ p.property.type.isEmpty = true := by
    rw [List.isEmpty_iff]
    exact h.type.ne_nil
  rw [readProperty?, text, cutAtFirst?_labelled h.name]
  simp only [Option.bind_eq_bind, Option.bind_some, dropLeading_label h.name, trim_of_isIdentifier h.name,
    h.name, if_true, Cut.behind, List.tail_cons, htrim, bracedText?_braced hoptions, hsplit,
    foldl_withOption_options h]
  rw [if_neg hnonempty]

/-- The line of a block of properties is read as the properties. -/
theorem readsAs_properties {ps : List PropertyLine} (h : ∀ p ∈ ps, p.Canonical) :
    ReadsAs (MemberLine.text (.properties ps)) (.properties (ps.map property)) := by
  have hpieces : ∀ piece ∈ ps.map text, piece.Writable (· == ',') := by
    intro piece hpiece
    obtain ⟨p, hp, rfl⟩ := List.mem_map.1 hpiece
    exact writable_text (h p hp)
  have hnever : ∀ piece ∈ ps.map text, piece.Balanced never := fun piece hpiece =>
    (hpieces piece hpiece).balanced.weaken fun _ hc => by cases hc
  have hsplit : (spaced (ps.map text)).splitTopLevel ',' = ps.map text := by
    have hblank : allBlank [' '] = true := rfl
    exact splitTopLevel_listed hpieces hblank hblank
  have hread : (ps.map text).filterMap readProperty? = ps.map property := by
    rw [List.filterMap_map, ← List.filterMap_eq_map]
    exact List.filterMap_congr fun p hp => readProperty?_text (h p hp)
  have hident : isIdentifier "properties".toList = true := by decide
  have hbraced : (braced (ps.map text)).Balanced (· == ';') := balanced_braced rfl rfl hnever
  have hbound : (bound true "properties".toList none (braced (ps.map text))).Balanced (· == ';') :=
    balanced_bound hident (by simp) hbraced
  apply readsAs_bound hident (by simp) hbraced
  intro rest
  obtain ⟨behind, hbehind, hconstant⟩ := readConstant_bound hident (by decide) (by decide) hbound rest
  rw [hconstant, if_pos rfl, hbehind rfl, trim_blank_cons (by decide) (trim_braced _), readProperties,
    bracedText?_braced hnever]
  simp only [hsplit, hread]

end PropertyLine

end ClassFlattening
