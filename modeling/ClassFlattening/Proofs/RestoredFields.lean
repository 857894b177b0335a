import ClassFlattening.Proofs.MethodPieces
import ClassFlattening.Proofs.WrittenFields

/-!
# Fields that are read back

For a field that was read off a class body most of what its line has to satisfy is known from the reading, and
what is not is that its type and its value are passable. That a field was read does not make them so: what is
taken for a comment is cut off wherever it stands, and the end of a line closes what the comma of the written
line does not. The field behind a property has been read in another way, and its texts as they are.
-/

namespace ClassFlattening

open Text

section Read

variable {f : Field} {t rest : Text} {cut : Cut}

/-- A field that is read does not have the name of a word that binds a constant. -/
theorem name_not_mem_of_read (h : Member.read t = (.field f, rest)) (hat : f.IsReadAt cut)
    (hfront : cut.before ++ [':'] <+: t) : f.name ∉ leadingNames := by
  have hbinder := (readField_of_read h).2
  simp only [leadingNames, List.mem_cons, List.not_mem_nil, or_false, not_or]
  have hne : ∀ word ∈ ["const".toList, "var".toList], f.name ≠ word := by
    rintro word hword rfl
    apply hbinder
    obtain ⟨front, back, hbefore, hblank, hback⟩ := cut.before.exists_blanks
    obtain ⟨after, hafter⟩ := hfront
    rw [hat.name] at hbefore
    obtain ⟨c, more, hmore, hc⟩ : ∃ c more, back ++ ':' :: after = c :: more ∧ isIdentChar c = false := by
      cases back with
      | nil => exact ⟨':', after, rfl, by decide⟩
      | cons c back =>
        rw [allBlank, List.all_cons, Bool.and_eq_true] at hback
        exact ⟨c, back ++ ':' :: after, rfl, isIdentChar_of_isBlank hback.1⟩
    have ht : t = front ++ (f.name ++ c :: more) := by
      rw [← hafter, hbefore, ← hmore]
      simp
    have hnot : ∀ word ∈ ["const".toList, "var".toList],
        word ∉ ["pub".toList, "inline".toList, "export".toList] := by decide
    rw [ht, (Qualifying.of_allBlank hblank).dropQualifiers_append (by decide),
      dropQualifiers_other hat.identifier (hnot _ hword) hc,
      leadingWord_append (fun d => isIdentChar_of_mem hat.identifier) hc]
    exact hword
  exact ⟨hne _ (by simp), hne _ (by simp), hat.ne_extends, hat.ne_mixins⟩

/-- A field that is read is read behind a colon, of what is in front of its comma and is no comment. In front
of the colon is nothing but the name. -/
theorem exists_of_read (h : Member.read t = (.field f, rest)) :
    ∃ cut, f.IsReadAt cut ∧ (cutElement t).1.dropTrailingComment = cut.before ++ [':'] ++ cut.behind ∧
      Balanced (· == ',') (cut.before ++ [':']) ∧ f.name ∉ leadingNames := by
  obtain ⟨-, cut, hcut, hat⟩ := readField_eq_field_iff.1 (readField_of_read h).1
  obtain ⟨helement, -⟩ := cutElement_spec t
  obtain ⟨comment, hcomment, -⟩ := exists_comment (cutElement t).1
  have hwhole : (cutElement t).1.dropTrailingComment = cut.before ++ [':'] ++ cut.behind := by
    rw [List.append_assoc]
    exact (eq_of_cutAtFirst? hcut).1
  have hfront : cut.before ++ [':'] <+: t := by
    refine List.IsPrefix.trans ?_ helement
    rw [hcomment, hwhole, List.append_assoc]
    exact List.prefix_append _ _
  refine ⟨cut, hat, hwhole, ?_, name_not_mem_of_read h hat hfront⟩
  obtain ⟨front, back, hbefore, hblank, hback⟩ := cut.before.exists_blanks
  have hname : f.name.Balanced (· == ',') := .of_plain <| all_isPlain_of_isIdentifier hat.identifier (by
    intro c hc
    rw [eq_of_beq hc]
    decide)
  rw [hat.name] at hbefore
  rw [hbefore]
  exact (hname.around hblank hback ne_comma_of_isBlank).append (.of_plain (by decide)) (apart_cons (by decide))

/-- The line of a field that was read is read back exactly if the type and the value are passable. -/
theorem restoredBefore_iff_of_read (h : Member.read t = (.field f, rest)) (more : Text) :
    f.RestoredBefore more ↔ f.type.Passable never ∧ ∀ value ∈ f.value, value.Passable never := by
  obtain ⟨cut, hat, hwhole, hfront, hname⟩ := exists_of_read h
  obtain ⟨comment, hcomment, hapart, hquoted, -⟩ := exists_comment (cutElement t).1
  -- No comma is found in front of what is taken for a comment, and so none behind the colon.
  have hnone := (cutElement_spec t).2
  rw [hcomment] at hnone
  have hkept := cutAtTopLevel?_eq_none_of_append hapart hnone
  rw [hwhole, hfront.passable.cutAtTopLevel?_append (apart_concat (by decide)), Option.map_eq_none_iff] at hkept
  rw [hwhole, List.append_assoc] at hquoted
  obtain ⟨hequals, htype, hvalue⟩ := hat.separate hkept
  rw [restoredBefore_iff hat.trimmed]
  constructor
  · rintro ⟨-, -, -, hpass, hpassed⟩
    exact ⟨(passable_iff.1 hpass).1, fun value hsome => (passable_iff.1 (hpassed value hsome).2).1⟩
  · rintro ⟨hpass, hpassed⟩
    exact ⟨hname, hat.slashesQuoted hquoted, passable_iff.2 ⟨hpass, hequals⟩, passable_iff.2 ⟨hpass, htype⟩,
      fun value hsome =>
        ⟨(hvalue value hsome).1, passable_iff.2 ⟨hpassed value hsome, (hvalue value hsome).2⟩⟩⟩

/-- The type and the value of a field are passable if they were read on one line, all of it passable, in
which nothing is taken for a comment. -/
theorem passable_of_line (hat : f.IsReadAt cut) (hpass : cut.behind.Passable never) (hline : '\n' ∉ cut.behind) :
    f.type.Passable never ∧ ∀ value ∈ f.value, value.Passable never := by
  have htrim : ∀ s : Text, s.Passable never → '\n' ∉ s → s.trim.Passable never := by
    intro s hs hnewline
    obtain ⟨front, back, hwhole, hfront, hback⟩ := s.exists_blanks
    rw [hwhole] at hs hnewline
    simp only [List.mem_append, not_or] at hnewline
    have hblanks : front.Passable never := (balanced_of_allBlank hfront fun _ _ => rfl).passable
    rw [List.append_assoc, hblanks.append_iff (apart_of_allBlank_left hfront)] at hs
    exact hs.of_append_blanks hback hnewline.2
  rcases readTyped_cases hat.type hat.value with
    ⟨-, htype, hvalue⟩ | ⟨before, behind, hwhole, htyped, htype, hvalue⟩
  · rw [← htype, hvalue]
    exact ⟨htrim _ hpass hline, by simp⟩
  · have hnever := (passable_iff.1 htyped).1
    have hsign : Balanced never ['='] := .of_plain (by decide)
    rw [hwhole] at hpass hline
    simp only [List.mem_append, List.mem_cons, not_or] at hline
    rw [hnever.append_iff (apart_cons (by decide)), ← List.singleton_append,
      hsign.passable.append_iff (apart_concat (s := []) (by decide))] at hpass
    refine ⟨htype ▸ htrim _ hnever hline.1, fun value hsome => ?_⟩
    rw [← (hvalue value hsome).2]
    exact htrim _ hpass hline.2.2

/-- A field that was read on one line, all of it passable, in which nothing is taken for a comment, is read
back. -/
theorem restoredBefore_of_line (h : Member.read t = (.field f, rest)) (hpass : (cutElement t).1.Passable never)
    (hquoted : (cutElement t).1.SlashesQuoted) (hline : '\n' ∉ (cutElement t).1) (more : Text) :
    f.RestoredBefore more := by
  obtain ⟨cut, hat, hwhole, hfront, -⟩ := exists_of_read h
  rw [dropTrailingComment_eq_self hquoted] at hwhole
  rw [hwhole, List.mem_append, not_or] at hline
  rw [hwhole, (hfront.weaken fun _ h => by cases h).passable.append_iff (apart_concat (by decide))] at hpass
  exact (restoredBefore_iff_of_read h more).2 (passable_of_line hat hpass hline.2)

end Read

section Properties

variable {entry : Text} {p : Property}

/-- The value of an option is trimmed, and no comma is found in it. -/
structure Text.IsOptionValue (t : Text) : Prop where
  trim : t.trim = t
  comma : t.cutAtTopLevel? (· == ',') = none

/-- What stands behind the sign of an option with a label is the value of an option. -/
theorem isOptionValue_of_label {label : Text} (hlabel : label.all (isPlain (· == ',')) = true) {cut : Cut}
    (hnone : entry.cutAtTopLevel? (· == ',') = none) (hcut : entry.cutAtFirst? (· == '=') = some cut)
    (hkey : cut.before.trim.dropLeading '.' = label) : cut.behind.trim.IsOptionValue := by
  refine ⟨trim_trim _, ?_⟩
  obtain ⟨front, back, hbefore, hfront, hback⟩ := cut.before.exists_blanks
  obtain ⟨hwhole, -⟩ := eq_of_cutAtFirst? hcut
  have hdots : cut.before.trim = cut.before.trim.takeWhile (· == '.') ++ label := by
    rw [← hkey, dropLeading, List.takeWhile_append_dropWhile]
  have hkeyed : cut.before.trim.Balanced (· == ',') := by
    rw [hdots]
    refine .plain_append ?_ (.of_plain hlabel)
    rw [List.all_eq_true]
    intro c hc
    have hdot := List.all_eq_true.1 (List.all_takeWhile (p := (· == '.')) (l := cut.before.trim)) c hc
    rw [eq_of_beq hdot]
    decide
  have hplain : Balanced (· == ',') (cut.before ++ ['=']) := by
    rw [hbefore]
    exact (hkeyed.around hfront hback ne_comma_of_isBlank).append (.of_plain (by decide)) (apart_cons (by decide))
  have hsearch := hplain.passable.cutAtTopLevel?_append (t := cut.behind) (apart_concat (by decide))
  rw [List.append_assoc, List.singleton_append, ← hwhole, hnone] at hsearch
  exact cutAtTopLevel?_trim_eq_none ne_comma_of_isBlank (Option.map_eq_none_iff.1 hsearch.symm)

/-- An option keeps the name of a property, and its type and value are those of options if they were. -/
theorem withOption_spec (hnone : entry.cutAtTopLevel? (· == ',') = none) (htype : p.type.IsOptionValue)
    (hvalue : ∀ value ∈ p.value, value.IsOptionValue) :
    (p.withOption entry).name = p.name ∧ (p.withOption entry).type.IsOptionValue ∧
      ∀ value ∈ (p.withOption entry).value, value.IsOptionValue := by
  rw [Property.withOption]
  split
  · exact ⟨rfl, htype, hvalue⟩
  · next cut hcut =>
    dsimp only
    split
    · next hkey => exact ⟨rfl, isOptionValue_of_label (by decide) hnone hcut hkey, hvalue⟩
    · split
      · exact ⟨rfl, htype, hvalue⟩
      · split
        · next hkey =>
          refine ⟨rfl, htype, fun value hsome => ?_⟩
          obtain rfl := Option.some.inj hsome
          exact isOptionValue_of_label (by decide) hnone hcut hkey
        · exact ⟨rfl, htype, hvalue⟩

/-- Options keep the name of a property, and its type and value are those of options if they were. -/
theorem foldl_withOption_spec {entries : List Text}
    (hnone : ∀ entry ∈ entries, entry.cutAtTopLevel? (· == ',') = none) (htype : p.type.IsOptionValue)
    (hvalue : ∀ value ∈ p.value, value.IsOptionValue) :
    (entries.foldl Property.withOption p).name = p.name ∧
      (entries.foldl Property.withOption p).type.IsOptionValue ∧
      ∀ value ∈ (entries.foldl Property.withOption p).value, value.IsOptionValue := by
  induction entries generalizing p with
  | nil => exact ⟨rfl, htype, hvalue⟩
  | cons entry entries ih =>
    obtain ⟨hname, htype, hvalue⟩ := withOption_spec (hnone entry List.mem_cons_self) htype hvalue
    obtain ⟨hnames, hrest⟩ := ih (fun e he => hnone e (List.mem_cons_of_mem entry he)) htype hvalue
    exact ⟨hnames.trans hname, hrest⟩

/-- The type and the value of a property that is read are those of options. -/
theorem trimmed_of_readProperty? (h : readProperty? entry = some p) :
    p.field.Trimmed ∧ p.type.IsOptionValue ∧ ∀ value ∈ p.value, value.IsOptionValue := by
  simp only [readProperty?, Option.bind_eq_bind, Option.bind_eq_some_iff] at h
  obtain ⟨cut, -, h⟩ := h
  split at h
  · next hname =>
    obtain ⟨options, -, h⟩ := Option.bind_eq_some_iff.1 h
    split at h
    · cases h
    · next htype =>
      cases h
      have hnil : Text.IsOptionValue [] := ⟨rfl, rfl⟩
      obtain ⟨hnames, htyped, hvalue⟩ := foldl_withOption_spec
        (p := ⟨trim (cut.before.trim.dropLeading '.'), [], none, .readWrite⟩)
        (fun entry hentry => cutAtTopLevel?_of_mem_splitTopLevel (t := options) (c := ',') rfl (by decide) hentry)
        hnil (by simp)
      refine ⟨⟨?_, ?_, htyped.trim, fun value hsome => (hvalue value hsome).trim⟩, htyped, hvalue⟩
      · rw [Property.field, hnames]
        exact hname
      · simpa [Property.field] using htype
  · cases h

/-- The line of the field behind a property that was read is read back exactly if its name has no meaning of
its own, none of its slashes is taken for a comment, its type and its value are passable, no sign of equality
is found in the type and the value is not blank. -/
theorem restoredBefore_iff_of_readProperty? (h : readProperty? entry = some p) (more : Text) :
    p.field.RestoredBefore more ↔
      p.name ∉ leadingNames ∧ p.field.element.SlashesQuoted ∧ p.type.Passable (· == '=') ∧
        ∀ value ∈ p.value, value ≠ [] ∧ value.Passable never := by
  obtain ⟨htrimmed, htype, hvalue⟩ := trimmed_of_readProperty? h
  rw [restoredBefore_iff htrimmed]
  constructor
  · rintro ⟨hname, hquoted, hequals, -, hpassed⟩
    exact ⟨hname, hquoted, hequals, fun value hsome =>
      ⟨(hpassed value hsome).1, (passable_iff.1 (hpassed value hsome).2).1⟩⟩
  · rintro ⟨hname, hquoted, hequals, hpassed⟩
    have hcomma : p.type.Passable (· == ',') := passable_iff.2 ⟨(passable_iff.1 hequals).1, htype.comma⟩
    exact ⟨hname, hquoted, hequals, hcomma, fun value hsome =>
      ⟨(hpassed value hsome).1, passable_iff.2 ⟨(hpassed value hsome).2, (hvalue value hsome).comma⟩⟩⟩

end Properties

/-- The line of a field that was read is read back exactly if its type and its value are passable: no literal,
comment or bracket is open where they end. So it is if the field was read on one line, all of it passable, in
which nothing is taken for a comment. For the field behind a property there is more to ask, since its texts are
taken as they are: its name has no meaning of its own, none of its slashes is taken for a comment, no sign of
equality is found in the type and the value is not blank. -/
theorem written_line_restored (t entry more : Text) :
    (∀ f rest, Member.read t = (.field f, rest) →
        (f.RestoredBefore more ↔ f.type.Passable never ∧ ∀ value ∈ f.value, value.Passable never) ∧
        ((cutElement t).1.Passable never → (cutElement t).1.SlashesQuoted → '\n' ∉ (cutElement t).1 →
          f.RestoredBefore more)) ∧
      ∀ p, readProperty? entry = some p →
        (p.field.RestoredBefore more ↔
          p.name ∉ leadingNames ∧ p.field.element.SlashesQuoted ∧ p.type.Passable (· == '=') ∧
            ∀ value ∈ p.value, value ≠ [] ∧ value.Passable never) := by
  refine ⟨fun f rest hread => ⟨?_, fun hpass hquoted hline => ?_⟩, fun p hread => ?_⟩
  · exact restoredBefore_iff_of_read hread more
  · exact restoredBefore_of_line hread hpass hquoted hline more
  · exact restoredBefore_iff_of_readProperty? hread more

/-- A field with a list as its value, and a property. -/
theorem written_line_restored_size :
    Member.read "size: Size = .\x7b .rows = 2 \x7d, // in cells\n".toList =
        (.field ⟨"size".toList, "Size".toList, some ".\x7b .rows = 2 \x7d".toList⟩, " // in cells\n".toList) ∧
      (∀ more, Field.RestoredBefore
        ⟨"size".toList, "Size".toList, some ".\x7b .rows = 2 \x7d".toList⟩ more) ∧
      readProperty? ".lives = .\x7b .type = u8, .default = 3 \x7d".toList =
        some ⟨"lives".toList, "u8".toList, some ['3'], .readWrite⟩ ∧
      ∀ more, Field.RestoredBefore ⟨"lives".toList, "u8".toList, some ['3']⟩ more := by
  have hfield : Member.read "size: Size = .\x7b .rows = 2 \x7d, // in cells\n".toList =
      (.field ⟨"size".toList, "Size".toList, some ".\x7b .rows = 2 \x7d".toList⟩, " // in cells\n".toList) := by
    decide +kernel
  have hproperty : readProperty? ".lives = .\x7b .type = u8, .default = 3 \x7d".toList =
      some ⟨"lives".toList, "u8".toList, some ['3'], .readWrite⟩ := by decide +kernel
  refine ⟨hfield, fun more => ?_, hproperty, fun more => ?_⟩
  · exact ((written_line_restored _ [] more).1 _ _ hfield).2 (by decide +kernel) (by decide +kernel)
      (by decide +kernel)
  · exact ((written_line_restored [] _ more).2 _ hproperty).2
      ⟨by decide +kernel, by decide +kernel, by decide +kernel, by decide +kernel⟩

/-- A field with a comment between the brackets of its value. -/
def remarkedSize : Text := "size: Size = .\x7b // in cells\n    .rows = 2,\n\x7d".toList

/-- A field whose value is a line of a multiline literal. -/
def greeting : Text := "text: []const u8 =\n    \\\\hello\n".toList

/-- A property with a comment behind its value. -/
def remarkedLives : Text := ".lives = .\x7b .type = u8, .default = 3 // at most\n \x7d".toList

/-- What is written of a field with matched brackets may be read as another field: a comment is cut off
together with the brackets behind it, or the comma of the line ends up in a literal or a comment. -/
theorem not_restored_of_matched :
    (remarkedSize.Passable (· == ',') ∧
        Member.read (remarkedSize ++ [',']) = (.field ⟨"size".toList, "Size".toList, some ".\x7b".toList⟩, []) ∧
        Member.read "size: Size = .\x7b,\n".toList =
          (.field ⟨"size".toList, "Size".toList, some ".\x7b,".toList⟩, []) ∧
        ¬ Field.RestoredBefore ⟨"size".toList, "Size".toList, some ".\x7b".toList⟩ []) ∧
      (greeting.Passable (· == ',') ∧
        Member.read (greeting ++ [',']) =
          (.field ⟨"text".toList, "[]const u8".toList, some "\\\\hello".toList⟩, []) ∧
        Member.read "text: []const u8 = \\\\hello,\n".toList =
          (.field ⟨"text".toList, "[]const u8".toList, some "\\\\hello,".toList⟩, []) ∧
        ¬ Field.RestoredBefore ⟨"text".toList, "[]const u8".toList, some "\\\\hello".toList⟩ []) ∧
      remarkedLives.Passable (· == ',') ∧
        readProperty? remarkedLives =
          some ⟨"lives".toList, "u8".toList, some "3 // at most".toList, .readWrite⟩ ∧
        Member.read "lives: u8 = 3 // at most,\n".toList =
          (.field ⟨"lives".toList, "u8".toList, some ['3']⟩, []) ∧
        ¬ Field.RestoredBefore ⟨"lives".toList, "u8".toList, some "3 // at most".toList⟩ [] := by
  decide +kernel

end ClassFlattening
