import ClassFlattening.Proofs.ReadingLists
import ClassFlattening.Proofs.ReadingMethods
import ClassFlattening.Proofs.ScanOutcomes
import Mathlib.Data.List.Forall2

/-!
# Reading the classes that are written

The body of a written class is read line by line, and each line as its member. The declaration around
the body is a site whose header binds the name of the class, so the scan of the text finds one
declaration and the class that is written. The canonical classes for which this needs more than their
punctuation are the ones with a text that a search takes for something else.
-/

namespace ClassFlattening

open Text

section Lines

variable {texts : List Text} {members : List Member}

/-- Reading a body takes the member at its first character that is no blank, then the rest. -/
theorem Member.readAll_eq (body : Text) :
    Member.readAll body =
      match body.trimStart with
      | [] => []
      | c :: rest => (Member.read (c :: rest)).1 :: Member.readAll (Member.read (c :: rest)).2 := by
  rw [Member.readAll]
  split
  · next hstart => rw [hstart]
  · next c rest hstart => rw [hstart]

/-- A text is settled if it is read as a member up to its end, whatever follows it. -/
structure Settled (t : Text) (member : Member) : Prop where
  head : ∀ c ∈ t.head?, isBlank c = false
  read : ∀ rest, Member.read (t ++ rest) = (member, rest)

/-- A settled text is not empty, since reading takes at least one character. -/
theorem Settled.ne_nil {t : Text} {member : Member} (h : Settled t member) : t ≠ [] := by
  rintro rfl
  have hlt := Member.length_read_lt (List.cons_ne_nil ' ' [])
  have hread := h.read [' ']
  rw [List.nil_append] at hread
  rw [hread] at hlt
  exact Nat.lt_irrefl _ hlt

/-- A settled text gives its member, whatever blanks are in front of it. -/
theorem Settled.readAll_append {t : Text} {member : Member} (h : Settled t member)
    {blanks : Text} (hblanks : blanks.allBlank = true) (rest : Text) :
    Member.readAll (blanks ++ (t ++ rest)) = member :: Member.readAll rest := by
  obtain ⟨c, more, hcons⟩ := List.exists_cons_of_ne_nil h.ne_nil
  have hc : isBlank c = false := h.head c (by rw [hcons]; rfl)
  have hstart : trimStart (blanks ++ (t ++ rest)) = c :: (more ++ rest) := by
    rw [trimStart_append hblanks, hcons]
    exact List.dropWhile_cons_of_neg (by simp [hc])
  have hread := h.read rest
  rw [hcons, List.cons_append] at hread
  rw [Member.readAll_eq, hstart]
  simp only [hread]

/-- A line that is read as a member is settled. -/
theorem ReadsAs.settled {t : Text} {member : Member} (h : ReadsAs t member) : Settled t member :=
  ⟨h.head, h.read⟩

/-- The first line comes first. -/
theorem Outline.linesOf_cons (t : Text) (texts : List Text) :
    linesOf (t :: texts) = "    ".toList ++ (t ++ '\n' :: linesOf texts) := by
  rw [linesOf, List.flatMap_cons, List.append_assoc, List.append_assoc]
  rfl

/-- The lines of a body are read as their members. -/
theorem readAll_linesOf (h : List.Forall₂ ReadsAs texts members) :
    Member.readAll ('\n' :: Outline.linesOf texts) = members := by
  induction h with
  | nil =>
    rw [Member.readAll_eq]
    rfl
  | @cons t member texts members hline hlines ih =>
    have hblanks : allBlank ('\n' :: "    ".toList) = true := by decide
    rw [Outline.linesOf_cons, ← List.cons_append, hline.settled.readAll_append hblanks, ih]

/-- The lines of a body are balanced. -/
theorem balanced_linesOf (h : List.Forall₂ ReadsAs texts members) :
    (Outline.linesOf texts).Balanced never := by
  induction h with
  | nil => exact .nil
  | @cons t member texts members hline hlines ih =>
    have hindent : "    ".toList.all (isPlain never) = true := by decide
    have hnone : [].all (isPlain never) = true := rfl
    rw [Outline.linesOf_cons]
    exact .plain_append hindent (hline.balanced.glue (c := '\n') ih rfl hnone)

end Lines

namespace MemberLine

/-- The member that is written. -/
def member : MemberLine → Member
  | field f => .field f
  | properties ps => .properties (ps.map PropertyLine.property)
  | constant k => .constant ⟨k.name, k.text⟩
  | method m => .method m.method

/-- A canonical line that looks like nothing else is read as its member. -/
theorem readsAs_text {line : MemberLine} (h : line.Canonical) (hlooks : line.Unmistakable) :
    ReadsAs line.text line.member := by
  cases line with
  | field f => exact Field.readsAs_text h.1 h.2.1 h.2.2.1 h.2.2.2 hlooks
  | properties ps => exact PropertyLine.readsAs_properties h
  | constant k => exact ConstantLine.readsAs_text h
  | method m => exact MethodLine.readsAs_text h hlooks

end MemberLine

namespace Outline

variable {o : Outline}

/-- The members that are written. -/
def members (o : Outline) : List Member :=
  (o.parent.map Member.parent).toList ++ (if o.mixins = [] then [] else [.mixins o.mixins]) ++
    o.entries.map MemberLine.member

/-- Every line of a class is read as its member. -/
theorem forall₂_readsAs (h : o.Canonical) (hlooks : o.Unmistakable) :
    List.Forall₂ ReadsAs o.memberTexts o.members := by
  rw [memberTexts, members]
  refine List.rel_append (List.rel_append ?_ ?_) ?_
  · cases hparent : o.parent with
    | none => exact .nil
    | some reference =>
      obtain ⟨hline, hslashes⟩ := hlooks.parent reference hparent
      exact .cons (readsAs_parentText (h.parent reference hparent) hline hslashes) .nil
  · split
    · exact .nil
    · exact .cons (readsAs_mixinsText h.mixins hlooks.mixins) .nil
  · rw [List.forall₂_map_left_iff, List.forall₂_map_right_iff, List.forall₂_same]
    intro line hline
    exact MemberLine.readsAs_text (h.entries line hline) (hlooks.entries line hline)

/-- What a kind of member is found in: the parent, the mixins and the lines. -/
theorem filterMap_members {α : Type} (kind : Member → Option α) (o : Outline) :
    o.members.filterMap kind =
      (o.parent.bind fun reference => kind (.parent reference)).toList ++
        (if o.mixins = [] then [] else (kind (.mixins o.mixins)).toList) ++
          o.entries.filterMap fun line => kind line.member := by
  have hparent : (o.parent.map Member.parent).toList.filterMap kind =
      (o.parent.bind fun reference => kind (.parent reference)).toList := by
    cases o.parent with
    | none => rfl
    | some reference =>
      rw [Option.map_some, Option.toList_some, List.filterMap_cons, Option.bind_some]
      cases kind (.parent reference) with
      | none => rfl
      | some a => rfl
  have hmixins : (if o.mixins = [] then [] else [Member.mixins o.mixins]).filterMap kind =
      if o.mixins = [] then [] else (kind (.mixins o.mixins)).toList := by
    split
    · rfl
    · rw [List.filterMap_cons]
      cases kind (.mixins o.mixins) with
      | none => rfl
      | some a => rfl
  rw [members, List.filterMap_append, List.filterMap_append, hparent, hmixins, List.filterMap_map]
  rfl

/-- A kind of member that is neither a parent nor a list of mixins is found in the lines. -/
theorem filterMap_members_of_lines {α : Type} {kind : Member → Option α} {line? : MemberLine → Option α}
    (hparent : ∀ reference, kind (.parent reference) = none)
    (hmixins : ∀ references, kind (.mixins references) = none)
    (hline : ∀ line : MemberLine, kind line.member = line? line) (o : Outline) :
    o.members.filterMap kind = o.entries.filterMap line? := by
  have hnone : (o.parent.bind fun reference => kind (.parent reference)) = none := by
    cases o.parent with
    | none => rfl
    | some reference => exact hparent reference
  rw [filterMap_members, hnone, hmixins, Option.toList_none, ite_self]
  simp only [hline]
  rfl

/-- No line stands for a parent or for mixins. -/
theorem filterMap_entries_eq_nil {α : Type} {kind : Member → Option α}
    (hline : ∀ line : MemberLine, kind line.member = none) (o : Outline) :
    o.entries.filterMap (fun line => kind line.member) = [] := by
  simp only [hline]
  exact List.filterMap_eq_nil_iff.2 fun _ _ => rfl

/-- The members of a class make it up. -/
theorem withMembers_members (o : Outline) (file : Text) :
    Class.withMembers { name := o.name, visibility := "pub ".toList, span := ⟨0, o.text.size⟩, file }
      o.members = o.declared file := by
  have hparent : (o.members.filterMap Member.parent?).getLast? = o.parent := by
    rw [filterMap_members, filterMap_entries_eq_nil (by intro line; cases line <;> rfl)]
    cases o.parent with
    | none => simp [Member.parent?]
    | some reference => simp [Member.parent?]
  have hmixins : (o.members.filterMap Member.mixins?).getLast?.getD [] = o.mixins := by
    rw [filterMap_members, filterMap_entries_eq_nil (by intro line; cases line <;> rfl)]
    cases o.parent with
    | none => split <;> simp_all [Member.mixins?]
    | some reference => split <;> simp_all [Member.mixins?]
  have hfields : o.members.filterMap Member.field? = o.entries.filterMap MemberLine.field? :=
    filterMap_members_of_lines (fun _ => rfl) (fun _ => rfl) (by intro line; cases line <;> rfl) o
  have hmethods : o.members.filterMap Member.method? = o.entries.filterMap MemberLine.method? :=
    filterMap_members_of_lines (fun _ => rfl) (fun _ => rfl) (by intro line; cases line <;> rfl) o
  have hproperties : o.members.filterMap Member.properties? = o.entries.filterMap MemberLine.properties? :=
    filterMap_members_of_lines (fun _ => rfl) (fun _ => rfl) (by intro line; cases line <;> rfl) o
  have hconstants : o.members.filterMap Member.constant? = o.entries.filterMap MemberLine.constant? :=
    filterMap_members_of_lines (fun _ => rfl) (fun _ => rfl) (by intro line; cases line <;> rfl) o
  rw [Class.withMembers, hparent, hmixins, hfields, hmethods, hproperties, hconstants, declared]

/-- The declaration in front of its marker. -/
def header (o : Outline) : Text := binding true o.name ++ " = ".toList

/-- The members of a class with their lines. -/
def body (o : Outline) : Text := '\n' :: linesOf o.memberTexts

/-- The declaration of a class around its marker. -/
theorem text_eq (o : Outline) :
    o.text = o.header ++ (marker ++ ("struct ".toList ++ ('{' :: o.body ++ ('}' :: terminator)))) := by
  rw [text, header, body, List.append_assoc]

/-- The site of a class. -/
def site (o : Outline) : Site where
  lead := .empty
  header := o.header
  opening := marker ++ "struct ".toList
  body := o.body
  closing := '}' :: terminator
  rest := []

/-- The characters of the text in front of a marker. -/
theorem not_mem_header (hname : isIdentifier o.name = true) {c : Char} (hc : isIdentChar c = false)
    (hspace : c ≠ ' ') (hequals : c ≠ '=') : c ∉ o.header := by
  rw [header, List.mem_append, not_or]
  refine ⟨not_mem_binding hname true hc hspace, ?_⟩
  intro hmem
  have hsigns : ∀ d ∈ " = ".toList, d = ' ' ∨ d = '=' := forall_of_all (by decide)
  rcases hsigns c hmem with h | h
  · exact hspace h
  · exact hequals h

/-- The marker of a class is the first one of its text, since no dot stands in front of it. -/
theorem cutAtText?_text (hname : isIdentifier o.name = true) :
    o.text.cutAtText? marker =
      some ⟨o.header, marker ++ ("struct ".toList ++ ('{' :: o.body ++ ('}' :: terminator)))⟩ := by
  obtain ⟨cut, hcut, gap, hgap⟩ := exists_cutAtText?_of_occurs marker_ne_nil o.header
    ("struct ".toList ++ ('{' :: o.body ++ ('}' :: terminator)))
  rw [List.append_assoc, ← text_eq] at hcut
  obtain ⟨more, hmore⟩ := exists_of_cutAtText? hcut
  have hwhole : cut.before ++ (marker ++ more) = cut.before ++ (gap ++ (marker ++
      ("struct ".toList ++ ('{' :: o.body ++ ('}' :: terminator))))) := by
    rw [← hmore, ← List.append_assoc cut.before gap, hgap, ← text_eq]
    exact whole_of_cutWhere _ hcut
  have hnil : gap = [] := by
    by_contra hne
    obtain ⟨inner, hinner, -⟩ := marker_occurs_behind hne (List.append_cancel_left hwhole)
    have hdot : '.' ∈ o.header := by
      rw [← hgap, hinner]
      exact List.mem_append_right _ (List.mem_append_left _ (by decide))
    exact not_mem_header hname (by decide) (by decide) (by decide) hdot
  rw [hnil, List.append_nil] at hgap
  rw [hnil, List.nil_append] at hwhole
  rw [hcut, ← hgap, ← List.append_cancel_left hwhole, ← hmore]

/-- The statement of a class starts at the start of its text. -/
theorem popStatement_header (hname : isIdentifier o.name = true) :
    (Front.empty.push o.header).popStatement = (Front.empty, o.header) := by
  have hpassed : (Front.empty.push o.header).passed = o.header.reverse := by
    change List.reverseAux o.header [] = _
    rw [List.reverseAux_eq, List.append_nil]
  have hdelimiters : ∀ c ∈ o.header.reverse, (!isDelimiter c) = true := by
    intro c hc
    rw [Bool.not_eq_true', ← Bool.not_eq_true]
    intro hdelimiter
    have hsigns : ∀ d ∈ [';', '}', '\n'], isIdentChar d = false ∧ d ≠ ' ' ∧ d ≠ '=' :=
      forall_of_all (by decide)
    have hmem : c ∈ [';', '}', '\n'] := by simpa [isDelimiter, or_assoc] using hdelimiter
    obtain ⟨hident, hspace, hequals⟩ := hsigns c hmem
    exact not_mem_header hname hident hspace hequals (List.mem_reverse.1 hc)
  have htail : (Front.empty.push o.header).popWhile (fun c => !isDelimiter c) =
      (Front.empty, o.header) := by
    have hall : o.header.reverse.takeWhile (fun c => !isDelimiter c) = o.header.reverse := by
      have h : (o.header.reverse ++ []).takeWhile (fun c => !isDelimiter c) = o.header.reverse ++ [] :=
        List.takeWhile_append_of_pos hdelimiters
      rwa [List.append_nil] at h
    have hline : ((Front.empty.push o.header).popWhile fun c => !isDelimiter c).2 = o.header := by
      change ((Front.empty.push o.header).passed.takeWhile _).reverse = _
      rw [hpassed, hall, List.reverse_reverse]
    have hlead := (Front.empty.push o.header).popWhile_whole fun c => !isDelimiter c
    rw [hline, Front.text_push] at hlead
    exact Prod.ext (Front.eq_of_text_eq (List.append_cancel_right hlead)) hline
  have hfirst : o.header = 'p' :: o.header.tail := rfl
  rw [Front.popStatement, htail]
  change (Front.empty.push (o.header.takeWhile isIndent), o.header.dropWhile isIndent) = _
  rw [hfirst]
  rfl

/-- The declaration of a class is read as its site. -/
theorem read?_text (hname : isIdentifier o.name = true) (hbody : o.body.Balanced never) :
    Site.read? (Front.empty.push o.header) marker
      ("struct ".toList ++ ('{' :: o.body ++ ('}' :: terminator))) = some o.site := by
  have hopened : cutAtFirst? (· == '{') ("struct ".toList ++ ('{' :: o.body ++ ('}' :: terminator))) =
      some ⟨"struct ".toList, '{' :: o.body ++ ('}' :: terminator)⟩ :=
    cutAtFirst?_self (forall_of_all (by decide)) rfl
  have hclosed : cutAtMatching? ('{' :: o.body ++ '}' :: terminator) '{' '}' =
      some ⟨'{' :: o.body, '}' :: terminator⟩ := hbody.cutAtMatching? rfl terminator
  have hended : cutAtText? terminator terminator = some ⟨[], terminator⟩ := by decide
  rw [Site.read?, hopened]
  simp only [Option.bind_eq_bind, Option.bind_some, hclosed]
  change (cutAtText? terminator terminator).bind _ = _
  rw [hended, popStatement_header hname]
  rfl

/-- The site of a class ends where its text ends. -/
theorem stop_site (o : Outline) : o.site.stop = o.text.size := by
  have hthrough : o.site.through.text = o.text := by
    rw [Site.through, Front.text_push, text_eq]
    change [] ++ (o.header ++ (marker ++ "struct ".toList) ++ '{' :: o.body ++ '}' :: terminator) = _
    simp only [List.nil_append, List.append_assoc, List.cons_append]
  rw [← Site.size_text_through, hthrough]

/-- The site of a class declares it. -/
theorem class?_site (h : o.Canonical) (hlooks : o.Unmistakable) (file : Text) :
    o.site.class? file = some (o.declared file) := by
  have hreverse : o.header.reverse =
      ' ' :: '=' :: ' ' :: (o.name.reverse ++ ' ' :: ("const".toList.reverse ++ ' ' :: "pub".toList.reverse)) := by
    rw [header, binding, List.reverse_append, List.reverse_append, List.reverse_append, List.append_assoc]
    rfl
  have hname : ∀ c ∈ o.name.reverse, isIdentChar c = true := fun c hc =>
    isIdentChar_of_mem h.name (List.mem_reverse.1 hc)
  have hnil : o.name.reverse ≠ [] := by
    rw [Ne, List.reverse_eq_nil_iff]
    exact ne_nil_of_isIdentifier h.name
  have hconst : o.name.reverse ≠ "const".toList.reverse := fun heq => hlooks.name (List.reverse_inj.1 heq)
  have hword : ∀ c ∈ "const".toList.reverse, isIdentChar c = true := forall_of_all (by decide)
  have hbehind : (' ' :: '=' :: ' ' :: (o.name.reverse ++ [' '])).reverse =
      ' ' :: o.name ++ " = ".toList := by
    rw [List.reverse_cons, List.reverse_cons, List.reverse_cons, List.reverse_append, List.reverse_reverse,
      List.append_assoc, List.append_assoc]
    rfl
  have hbinding : o.header.cutAtLastWord? "const".toList =
      some ⟨"pub ".toList, "const".toList ++ (' ' :: o.name ++ " = ".toList)⟩ := by
    rw [cutAtLastWord?, hreverse, cutAtWord?_cons (by decide) (by decide),
      cutAtWord?_cons (by decide) (by decide), cutAtWord?_cons (by decide) (by decide),
      cutAtWord?_other hname hconst hnil (by decide), cutAtWord?_self hword (by decide) (by decide),
      ← hbehind]
    rfl
  have hbound : cutAtFirst? (· == '=') (' ' :: o.name ++ " = ".toList) =
      some ⟨' ' :: o.name ++ [' '], "= ".toList⟩ := by
    have hfront : ∀ c ∈ ' ' :: o.name ++ [' '], (c == '=') = false := by
      intro c hc
      rw [beq_eq_false_iff_ne]
      intro heq
      rw [heq, List.mem_append, List.mem_cons] at hc
      rcases hc with (hc | hc) | hc
      · cases hc
      · exact not_mem_of_isIdentifier h.name (by decide) hc
      · exact absurd hc (by decide)
    have hcut := cutAtFirst?_self hfront (c := '=') rfl (t := [' '])
    rw [List.append_assoc] at hcut
    exact hcut
  have hspace : allBlank [' '] = true := rfl
  have htrim : trim (' ' :: o.name ++ [' ']) = o.name :=
    trim_around hspace (trim_of_isIdentifier h.name) hspace
  have hnonempty : ¬ o.name.isEmpty = true := by
    rw [List.isEmpty_iff]
    exact ne_nil_of_isIdentifier h.name
  have hmembers : Member.readAll o.body = o.members := readAll_linesOf (forall₂_readsAs h hlooks)
  have hvisibility : trimStart "pub ".toList = "pub ".toList := by decide
  rw [Site.class?]
  change (o.header.cutAtLastWord? _).bind _ = _
  rw [hbinding, Option.bind_some]
  change (cutAtFirst? (· == '=') (' ' :: o.name ++ " = ".toList)).bind _ = _
  rw [hbound, Option.bind_some]
  simp only [htrim]
  rw [if_neg hnonempty, ← withMembers_members, ← hmembers, ← stop_site, hvisibility]
  rfl

/-- A canonical class that looks like nothing else is what the scan of its text finds. -/
theorem scan_text (o : Outline) (file : Text) (h : o.Canonical) (hlooks : o.Unmistakable) :
    scan file o.text = [.declared (o.declared file)] := by
  have hbody : o.body.Balanced never := by
    have hnewline : ['\n'].all (isPlain never) = true := by decide
    exact .plain_append hnewline (balanced_linesOf (forall₂_readsAs h hlooks))
  have hdeclared : declaredAt? file (Front.empty.push o.header)
      (marker ++ ("struct ".toList ++ ('{' :: o.body ++ ('}' :: terminator)))) =
        some (o.site, o.declared file) := by
    rw [declaredAt?_eq_some_iff, List.drop_left]
    exact ⟨read?_text h.name hbody, class?_site h hlooks file⟩
  have hnone : Text.cutAtText? [] marker = none := rfl
  rw [scan, scanFrom_step, cutAtText?_text h.name]
  simp only [hdeclared]
  rw [scanFrom_step]
  simp only [site, hnone]

/-- A property with an access and a default value. -/
def email : PropertyLine := ⟨"email".toList, "[]const u8".toList, some .readOnly, some "\"\"".toList⟩

/-- A constant without a type. -/
def selfType : ConstantLine := ⟨false, "Self".toList, none, "@This()".toList⟩

/-- A field with a default value. -/
def position : Field := ⟨"pos".toList, "Vec2".toList, some ".\x7b .x = 0, .y = 0 \x7d".toList⟩

/-- A function that may fail. -/
def create : MethodLine :=
  ⟨true, "init".toList, ["self: *Player".toList, "size: u32".toList], "error\x7bOom\x7d!void".toList,
    " self.size = size; ".toList⟩

/-- A class with a parent, mixins and members of every kind. -/
def player : Outline where
  name := "Player".toList
  parent := some "base.Entity".toList
  mixins := ["Timestamps".toList, "traits.Serializable".toList]
  entries := [.properties [email], .constant selfType, .field position, .method create]

/-- The texts of the class can be told from its punctuation. -/
theorem canonical_player : player.Canonical where
  name := by decide
  parent := by decide
  mixins := by decide
  entries := by
    have hproperties : MemberLine.Canonical (.properties [email]) := by
      intro p hp
      rw [List.mem_singleton.1 hp]
      exact ⟨by decide, by decide, by decide⟩
    have hconstant : MemberLine.Canonical (.constant selfType) :=
      ⟨by decide, by decide, by decide, by decide⟩
    have hfield : MemberLine.Canonical (.field position) :=
      ⟨by decide, by decide, by decide, by decide⟩
    have hresult : ErrorSetsOnly create.result := by
      have hrest : ErrorSetsOnly "!void".toList := .plain (by decide)
      have hset : ErrorSetsOnly ([] ++ "error".toList ++ [] ++ '{' :: "Oom".toList ++ '}' :: "!void".toList) :=
        .errorSet (by decide) (fun _ h => by cases h) (by decide) (by decide) hrest
      exact hset
    have hmethod : MemberLine.Canonical (.method create) :=
      ⟨by decide, by decide, by decide, by decide, hresult, by decide⟩
    exact List.forall_mem_cons.2 ⟨hproperties, List.forall_mem_cons.2 ⟨hconstant,
      List.forall_mem_cons.2 ⟨hfield, List.forall_mem_singleton.2 hmethod⟩⟩⟩

/-- No text of the class looks like something else. -/
theorem unmistakable_player : player.Unmistakable where
  name := by decide
  parent := by decide
  mixins := by decide
  entries := by
    have hfield : position.element.SlashesQuoted := by decide
    have hmethod : endsWithWord create.result.reverse "error".toList = false := by decide
    exact List.forall_mem_cons.2 ⟨trivial, List.forall_mem_cons.2 ⟨trivial,
      List.forall_mem_cons.2 ⟨hfield, List.forall_mem_singleton.2 hmethod⟩⟩⟩

/-- The scan of the text of this class finds it. -/
theorem scan_text_player :
    player.Canonical ∧ player.Unmistakable ∧ scan [] player.text = [.declared (player.declared [])] :=
  ⟨canonical_player, unmistakable_player, scan_text player [] canonical_player unmistakable_player⟩

/-- A canonical class that the scan of its text does not find. -/
def Misread (o : Outline) : Prop := o.Canonical ∧ scan [] o.text ≠ [.declared (o.declared [])]

/-- A class with the name of the word that binds it. -/
def namedConst : Outline := { name := "const".toList }

/-- A class with two slashes in a character literal of a field. -/
def slashesInField : Outline where
  name := "A".toList
  entries := [.field ⟨"x".toList, "u16".toList, some "'//'".toList⟩]

/-- A class with two slashes in a character literal of the reference to its parent. -/
def slashesInParent : Outline := { name := "A".toList, parent := some "f('//')".toList }

/-- A class with two slashes in a character literal of a reference to a mixin. -/
def slashesInMixin : Outline := { name := "A".toList, mixins := ["f('//')".toList] }

/-- A class with a return type that ends with the word in front of an error set. -/
def bareError : Outline where
  name := "A".toList
  entries := [.method ⟨false, "f".toList, [], "error".toList, " return; ".toList⟩]

/-- A class with a reference to its parent on two lines. -/
def parentOnTwoLines : Outline := { name := "A".toList, parent := some "a\n.B".toList }

/-- Canonical classes are misread if a text looks like something else. -/
theorem misread_of_mistakable :
    Misread namedConst ∧ Misread slashesInField ∧ Misread slashesInParent ∧ Misread slashesInMixin ∧
      Misread bareError ∧ Misread parentOnTwoLines := by
  have hnone : ∀ line ∈ ([] : List MemberLine), line.Canonical := fun _ h => by cases h
  have hfield : ∀ line ∈ slashesInField.entries, line.Canonical :=
    List.forall_mem_singleton.2 ⟨by decide, by decide, by decide, by decide⟩
  have hmethod : ∀ line ∈ bareError.entries, line.Canonical :=
    List.forall_mem_singleton.2 ⟨by decide, by decide, by decide, by decide, .plain (by decide), by decide⟩
  refine ⟨?_, ?_, ?_, ?_, ?_, ?_⟩
  · exact ⟨⟨by decide, by decide, by decide, hnone⟩, by decide +kernel⟩
  · exact ⟨⟨by decide, by decide, by decide, hfield⟩, by decide +kernel⟩
  · exact ⟨⟨by decide, by decide, by decide, hnone⟩, by decide +kernel⟩
  · exact ⟨⟨by decide, by decide, by decide, hnone⟩, by decide +kernel⟩
  · exact ⟨⟨by decide, by decide, by decide, hmethod⟩, by decide +kernel⟩
  · exact ⟨⟨by decide, by decide, by decide, hnone⟩, by decide +kernel⟩

end Outline

end ClassFlattening
