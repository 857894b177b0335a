import ClassFlattening.Proofs.SettledMembers
import Mathlib.Data.List.DropRight

/-!
# Comments in class bodies

A comment in front of a member of a class body is a member of its own, which adds nothing. In front of an
element of a list within a member it is not passed over: it becomes part of the element, which then starts with
a slash. So an entry of a block of properties with a comment in front of it is no property, an option with a
comment in front of it says nothing, and the first parameter of a function with a comment in front of it is
not the instance. The value of a binding that names other classes is cut off at the comment.
-/

namespace ClassFlattening

open Text

section Slashes

variable {s t note entry : Text} {p : Property}

/-- What starts with a slash is no property. -/
theorem readProperty?_of_slash (more : Text) : readProperty? ('/' :: more) = none := by
  have hname {front : Text} : isIdentifier (dropLeading (trim ('/' :: front)) '.').trim = false := by
    have htrim : trim ('/' :: front) = '/' :: front.trimEnd :=
      trim_append_cons (show isBlank '/' = false by decide) [] front
    have hdrop : dropLeading ('/' :: front.trimEnd) '.' = '/' :: front.trimEnd :=
      List.dropWhile_cons_of_neg (by decide)
    have htrim' : trim ('/' :: front.trimEnd) = '/' :: front.trimEnd.trimEnd :=
      trim_append_cons (show isBlank '/' = false by decide) [] _
    rw [htrim, hdrop, htrim']
    rfl
  have hstep : cutAtFirst? (· == '=') ('/' :: more) =
      (more.cutAtFirst? (· == '=')).map fun cut => ⟨'/' :: cut.before, cut.after⟩ :=
    cutAtFirst?_append (s := ['/']) (forall_of_all (by decide))
  rw [readProperty?, hstep]
  cases more.cutAtFirst? (· == '=') with
  | none => rfl
  | some cut =>
    simp only [Option.map_some, Option.bind_eq_bind, Option.bind_some, hname, Bool.false_eq_true, if_false]

/-- What starts with a slash says nothing about a property. -/
theorem withOption_of_slash (p : Property) (more : Text) : p.withOption ('/' :: more) = p := by
  have hkey {front : Text} : dropLeading (trim ('/' :: front)) '.' = '/' :: front.trimEnd := by
    have htrim : trim ('/' :: front) = '/' :: front.trimEnd :=
      trim_append_cons (show isBlank '/' = false by decide) [] front
    rw [htrim]
    exact List.dropWhile_cons_of_neg (by decide)
  have hstep : cutAtFirst? (· == '=') ('/' :: more) =
      (more.cutAtFirst? (· == '=')).map fun cut => ⟨'/' :: cut.before, cut.after⟩ :=
    cutAtFirst?_append (s := ['/']) (forall_of_all (by decide))
  have hne {word : Text} (hword : word.head? ≠ some '/') (front : Text) : '/' :: front ≠ word := by
    rintro rfl
    exact hword rfl
  rw [Property.withOption, hstep]
  cases more.cutAtFirst? (· == '=') with
  | none => rfl
  | some cut =>
    simp only [Option.map_some, hkey]
    rw [if_neg (hne (by decide) _), if_neg (fun h => hne (by decide) _ h.1), if_neg (hne (by decide) _)]

/-- What starts with a slash is not the instance. -/
theorem firstParamIsSelf_of_slash {more : Text} (h : (t.splitTopLevel ',').head? = some ('/' :: more)) :
    firstParamIsSelf t = false := by
  have hdrop : dropLead? ('/' :: more) "self".toList = none := if_neg (by simp)
  rw [firstParamIsSelf, h]
  simp only [hdrop]

/-- The text in front of a comment is what is left of a value, if no other comment and no double quote is in
it. -/
theorem dropTrailingComment_remark (hquote : '"' ∉ s) (hslashes : s.contains "//".toList = false)
    (hlast : ∀ c ∈ s.getLast?, isLineStart c = false) (note t : Text) :
    (s ++ (remark note ++ t)).dropTrailingComment = s := by
  have hcut : cutAtText? (s ++ (remark note ++ t)) "//".toList = some ⟨s, remark note ++ t⟩ := by
    clear hquote
    induction s with
    | nil => rfl
    | cons c s ih =>
      have hc : matchesAt "//".toList c (s ++ (remark note ++ t)) = false := by
        rw [Bool.eq_false_iff]
        intro hmatch
        rw [matchesAt_eq_isPrefixOf, List.isPrefixOf_iff_prefix] at hmatch
        obtain ⟨more, hmore⟩ := hmatch
        change '/' :: '/' :: more = c :: (s ++ (remark note ++ t)) at hmore
        rw [List.cons.injEq] at hmore
        obtain ⟨rfl, hnext⟩ := hmore
        cases s with
        | nil => exact absurd (hlast '/' rfl) (by decide)
        | cons d s =>
          obtain rfl := (List.cons.inj hnext).1
          rw [Text.contains, cutAtText?, cutWhere_cons] at hslashes
          exact absurd hslashes (by simp [matchesAt])
      have hrest : Text.contains s "//".toList = false := by
        rw [Bool.eq_false_iff] at hslashes ⊢
        exact fun h => hslashes (contains_append h [c])
      have hlast' : ∀ d ∈ s.getLast?, isLineStart d = false := fun d hd =>
        hlast d (by rw [List.getLast?_cons, hd]; rfl)
      have hfound := ih hrest hlast'
      rw [cutAtText?] at hfound ⊢
      rw [List.cons_append, cutWhere_cons, hc]
      simp only [Bool.false_eq_true, if_false, hfound, Option.map_some]
  rw [dropTrailingComment, hcut]
  exact if_neg hquote

end Slashes

/-- A name, a sign of equality and a list in braces: the text in front of the sign, from there to the brace,
between the braces, and behind them. -/
structure Listing where
  head : Text
  lead : Text
  inner : Text
  back : Text

namespace Listing

/-- The text behind the sign of equality. -/
def value (l : Listing) : Text := l.lead ++ '{' :: (l.inner ++ '}' :: l.back)

/-- The text of a listing. -/
def text (l : Listing) : Text := l.head ++ '=' :: l.value

/-- The text of a listing up to a place in its list. -/
def upTo (l : Listing) (s : Text) : Text := l.head ++ '=' :: (l.lead ++ '{' :: s)

/-- The text of a listing from a place in its list on. -/
def onFrom (l : Listing) (t : Text) : Text := t ++ '}' :: l.back

/-- The signs of a listing are the first of their kinds, in code, and the braces match. -/
structure IsRead (l : Listing) : Prop where
  head : '=' ∉ l.head
  lead : '{' ∉ l.lead
  head_code : (l.head ++ ['=']).EndsInCode
  lead_code : l.lead.EndsInCode
  inner : cutAtMatching? ('{' :: l.inner ++ ['}']) '{' '}' = some ⟨'{' :: l.inner, ['}']⟩

/-- A comment put in front of the rest of a list. -/
def remarked (l : Listing) (note s t : Text) : Listing := { l with inner := s ++ (remark note ++ t) }

variable {l : Listing} {note s t : Text} {ends : Char → Bool}

/-- A place in its list divides the text of a listing. -/
theorem text_eq (hinner : l.inner = s ++ t) : l.text = l.upTo s ++ l.onFrom t := by
  simp [text, value, upTo, onFrom, hinner]

/-- The text of a listing with a comment in its list. -/
theorem text_remarked (l : Listing) (note s t : Text) :
    (l.remarked note s t).text = l.upTo s ++ (remark note ++ l.onFrom t) := by
  simp [text, value, upTo, onFrom, remarked]

/-- A listing is read with a comment in its list. -/
theorem IsRead.remarked (h : l.IsRead) (hinner : l.inner = s ++ t) (hs : s.EndsInCode) (hnote : '\n' ∉ note) :
    (l.remarked note s t).IsRead where
  head := h.head
  lead := h.lead
  head_code := h.head_code
  lead_code := h.lead_code
  inner := by
    have hbraces := h.inner
    rw [hinner] at hbraces
    exact cutAtMatching?_insert_remark rfl rfl (by decide) hnote hs hbraces

/-- The first sign of equality of a listing. -/
theorem IsRead.cutAtFirst?_text (h : l.IsRead) (rest : Text) :
    (l.text ++ rest).cutAtFirst? (· == '=') = some ⟨l.head, '=' :: (l.value ++ rest)⟩ := by
  rw [text, List.append_assoc]
  refine cutAtFirst?_self (fun c hc => ?_) rfl
  rw [beq_eq_false_iff_ne]
  rintro rfl
  exact h.head hc

/-- The list in the braces is found. -/
theorem IsRead.bracedText?_value (h : l.IsRead) : bracedText? l.value.trim = some l.inner := by
  have hlead : ∀ c ∈ l.lead.trimStart, (c == '{') = false := by
    intro c hc
    rw [beq_eq_false_iff_ne]
    rintro rfl
    exact h.lead ((List.dropWhile_sublist _).subset hc)
  have hbraces (more : Text) : cutAtMatching? ('{' :: l.inner ++ '}' :: more) '{' '}' =
      some ⟨'{' :: l.inner, '}' :: more⟩ :=
    (Respelled.refl [] [] l.inner).cutAtMatching?_eq (by decide) (by decide) (by decide) h.inner
  have htrim : l.value.trim = l.lead.trimStart ++ '{' :: (l.inner ++ '}' :: l.back.trimEnd) := by
    rw [value, trim_append_cons (by decide), trimEnd_append_cons (by decide)]
  rw [bracedText?, htrim, cutAtFirst?_self hlead rfl]
  have hclosed := hbraces l.back.trimEnd
  rw [List.cons_append] at hclosed
  simp only [Option.bind_eq_bind, Option.bind_some, hclosed]
  rfl

/-- The place of a comment in the text of a listing ends in code. -/
theorem IsRead.endsInCode (h : l.IsRead) (hs : s.EndsInCode) :
    (l.lead ++ '{' :: s).EndsInCode ∧ (l.upTo s).EndsInCode := by
  have hvalue := h.lead_code.append ((endsInCode_singleton (c := '{') rfl).append hs)
  have htext := h.head_code.append hvalue
  rw [List.append_assoc] at htext
  exact ⟨hvalue, htext⟩

/-- A comment in the list leaves the text of a listing passable. -/
theorem IsRead.passable_remarked (h : l.IsRead) (hinner : l.inner = s ++ t) (hs : s.EndsInCode)
    (hnote : '\n' ∉ note) (hends : ends '\n' = false) (hpass : l.text.Passable ends) :
    (l.remarked note s t).text.Passable ends := by
  rw [text_eq hinner] at hpass
  rw [text_remarked]
  exact hpass.insert_remark (h.endsInCode hs).2 hnote fun _ => hends

end Listing

/-- The properties that the pieces of a list make. -/
def listedProperties (t : Text) : List Property := (t.topLevelPieces ',').filterMap readProperty?

/-- The property that a name and the pieces of a list make, if they give a type. -/
def Property.ofOptions? (name : Text) (pieces : List Text) : Option Property :=
  let property := pieces.foldl Property.withOption ⟨name, [], none, .readWrite⟩
  if property.type.isEmpty then none else some property

/-- The name in front of the sign of equality of a property. -/
def entryName (head : Text) : Text := (head.trim.dropLeading '.').trim

section Pieces

variable {t : Text}

/-- A blank piece is no property. -/
theorem filterMap_splitTopLevel (t : Text) :
    (t.splitTopLevel ',').filterMap readProperty? = listedProperties t := by
  rw [splitTopLevel, List.filterMap_filter, listedProperties]
  refine List.filterMap_congr fun piece _ => ?_
  cases piece with
  | nil => rfl
  | cons c piece => rfl

/-- A blank piece says nothing about a property. -/
theorem foldl_splitTopLevel (t : Text) (p : Property) :
    (t.splitTopLevel ',').foldl Property.withOption p = (t.topLevelPieces ',').foldl Property.withOption p := by
  rw [splitTopLevel, List.foldl_filter]
  congr 1
  funext q piece
  cases piece with
  | nil => rfl
  | cons c piece => rfl

end Pieces

namespace Listing

variable {l : Listing} {rest : Text}

/-- A property is read from its name and the pieces of its list. -/
theorem IsRead.readProperty?_text (h : l.IsRead) (hname : isIdentifier (entryName l.head) = true) :
    readProperty? l.text.trim = Property.ofOptions? (entryName l.head) (l.inner.topLevelPieces ',') := by
  have hsign : ∀ c ∈ l.head.trimStart, (c == '=') = false := by
    intro c hc
    rw [beq_eq_false_iff_ne]
    rintro rfl
    exact h.head ((List.dropWhile_sublist _).subset hc)
  have htrim : l.text.trim = l.head.trimStart ++ '=' :: (l.lead ++ '{' :: (l.inner ++ '}' :: l.back.trimEnd)) := by
    rw [text, value, trim_append_cons (by decide), trimEnd_append_cons (by decide),
      trimEnd_append_cons (by decide)]
  have hshort : IsRead { l with back := l.back.trimEnd } := ⟨h.head, h.lead, h.head_code, h.lead_code, h.inner⟩
  have hstart : l.head.trimStart.trim = l.head.trim := by
    rw [trim, trim, trimStart, trimStart, List.dropWhile_idempotent]
  have hbraced := hshort.bracedText?_value
  rw [value] at hbraced
  rw [readProperty?, htrim, cutAtFirst?_self hsign rfl]
  simp only [Option.bind_eq_bind, Option.bind_some, hstart, Cut.behind, List.tail_cons, hbraced]
  rw [← entryName, if_pos hname]
  simp only [foldl_splitTopLevel]
  rfl

/-- The pieces of the binding of the properties. -/
structure BindsProperties (l : Listing) : Prop extends l.IsRead where
  start : startOf (l.head ++ ['=']) = .binding
  name : bindingName l.head = "properties".toList
  text : l.text.Passable (· == ';')

/-- The pieces of the binding of the mixins. -/
structure BindsMixins (l : Listing) : Prop extends l.IsRead where
  start : startOf (l.head ++ ['=']) = .binding
  name : bindingName l.head = "mixins".toList
  line : '\n' ∉ l.head
  value : l.value.Passable endsBinding

/-- What starts like a binding is read as one. -/
theorem read_eq_readConstant (hstart : startOf (l.head ++ ['=']) = .binding) (rest : Text) :
    Member.read (l.text ++ rest) = readConstant (l.text ++ rest) := by
  have hsame : startOf (l.text ++ rest) = .binding := by
    rw [← hstart, Listing.text, List.append_assoc]
    exact startOf_append_cons (by decide) (by decide) (by decide) l.head _ _
  rw [Member.read_eq_start, hsame]
  rfl

/-- The binding of the properties is read as the properties that its list makes. -/
theorem BindsProperties.read (h : l.BindsProperties) (rest : Text) :
    Member.read (l.text ++ ';' :: rest) = (.properties (listedProperties l.inner), rest) := by
  have hfirst := h.toIsRead.cutAtFirst?_text (';' :: rest)
  have hfirst' := h.toIsRead.cutAtFirst?_text []
  rw [List.append_nil, List.append_nil] at hfirst'
  have hnone : readReferenceBinding? (l.text ++ ';' :: rest) = none := by
    rw [readReferenceBinding?_eq_none_iff, cutOnLine?_of_cutAtFirst? hfirst]
    split
    · simp
    · intro cut hcut
      cases hcut
      rw [h.name]
      decide
  have hend : (l.text ++ ';' :: rest).cutAtTopLevel? (· == ';') = some ⟨l.text, ';' :: rest⟩ :=
    (cutAtTopLevel?_eq_iff (by simp) rfl (by decide) rest).2 h.text
  rw [read_eq_readConstant h.start, readConstant_of_cut hnone hend hfirst', h.name, statementMember, if_pos rfl]
  simp only [Cut.behind, List.tail_cons]
  rw [readProperties, h.toIsRead.bracedText?_value]
  simp only [filterMap_splitTopLevel]

/-- The binding of the mixins is read as the references of its value, without a comment at its end. -/
theorem BindsMixins.read (h : l.BindsMixins) (rest : Text) :
    Member.read (l.text ++ ';' :: rest) = (.mixins (readReferences l.value.dropTrailingComment.trim), rest) := by
  have hcut : (l.text ++ ';' :: rest).cutOnLine? '=' = some ⟨l.head, '=' :: (l.value ++ ';' :: rest)⟩ := by
    rw [cutOnLine?_of_cutAtFirst? (h.toIsRead.cutAtFirst?_text _)]
    exact if_neg h.line
  have hbound : readBound (l.value ++ ';' :: rest) = (l.value, rest) :=
    readBound_of_cut ((cutAtTopLevel?_eq_iff rfl rfl (by decide) rest).2 h.value)
  rw [read_eq_readConstant h.start, readConstant, readReferenceBinding?_eq, hcut, Option.bind_some,
    if_pos (Or.inr h.name)]
  simp only [Cut.behind, List.tail_cons, hbound, h.name]
  rfl

/-- The properties are bound with a comment in their list. -/
theorem BindsProperties.remarked (h : l.BindsProperties) {note s t : Text} (hinner : l.inner = s ++ t)
    (hs : s.EndsInCode) (hnote : '\n' ∉ note) : (l.remarked note s t).BindsProperties :=
  { h.toIsRead.remarked hinner hs hnote with
    start := h.start
    name := h.name
    text := h.toIsRead.passable_remarked hinner hs hnote rfl h.text }

end Listing

section Depth

variable {ends inner : Char → Bool} {t : Text} {mode mode' : Mode} {depth depth' : Nat}

/-- Within brackets a search goes on as it does outside all of them. -/
theorem topLevelVerdict_deeper {c : Char} (h : topLevelVerdict ends depth c = .pass depth') (k : Nat) :
    topLevelVerdict inner (depth + (k + 1)) c = .pass (depth' + (k + 1)) := by
  have hstop : (decide (depth + (k + 1) = 0) && inner c) = false := by simp
  rw [topLevelVerdict] at h ⊢
  rw [hstop]
  split at h
  · cases h
  · split at h
    · next hopening =>
      cases h
      simp only [Bool.false_eq_true, if_false, if_pos hopening]
      congr 1
      omega
    · next hopening =>
      split at h
      · next hclosing =>
        split at h
        · cases h
        · next hdepth =>
          cases h
          simp only [Bool.false_eq_true, if_false, if_neg hopening, if_pos hclosing]
          rw [if_neg (by omega)]
          congr 1
          omega
      · next hclosing =>
        cases h
        simp only [Bool.false_eq_true, if_false, if_neg hopening, if_neg hclosing]

/-- A text that is passed outside all brackets is passed within them, with the same brackets behind it. -/
theorem walk_deeper (h : walk (topLevelVerdict ends) (mode, depth) t = some (mode', depth')) (k : Nat) :
    walk (topLevelVerdict inner) (mode, depth + (k + 1)) t = some (mode', depth' + (k + 1)) := by
  induction t generalizing mode depth with
  | nil =>
    cases h
    rfl
  | cons c t ih =>
    obtain ⟨⟨between, level⟩, hverdict, hrest⟩ := walk_cons_eq_some_iff.1 h
    refine walk_cons_eq_some_iff.2 ⟨(between, level + (k + 1)), ?_, ih hrest⟩
    rw [codeVerdict_eq_pass_iff] at hverdict ⊢
    exact ⟨hverdict.1, fun hcode => topLevelVerdict_deeper (hverdict.2.1 hcode) k,
      fun hcode => congrArg (· + (k + 1)) (hverdict.2.2 hcode)⟩

/-- A search for fewer characters passes what the search for more passes. -/
theorem walk_weaken (h : walk (topLevelVerdict ends) (mode, depth) t = some (mode', depth'))
    (hinner : ∀ c, inner c = true → ends c = true) :
    walk (topLevelVerdict inner) (mode, depth) t = some (mode', depth') := by
  induction t generalizing mode depth with
  | nil => exact h
  | cons c t ih =>
    obtain ⟨⟨between, level⟩, hverdict, hrest⟩ := walk_cons_eq_some_iff.1 h
    refine walk_cons_eq_some_iff.2 ⟨(between, level), ?_, ih hrest⟩
    rw [codeVerdict_eq_pass_iff] at hverdict ⊢
    refine ⟨hverdict.1, fun hcode => ?_, hverdict.2.2⟩
    have hpass := topLevelVerdict_never (hverdict.2.1 hcode)
    refine (topLevelVerdict_of_never hpass).resolve_right fun hstop => ?_
    obtain ⟨hdepth, hc⟩ := topLevelVerdict_eq_stop_iff.1 hstop
    have hends := hverdict.2.1 hcode
    rw [topLevelVerdict_eq_stop_iff.2 ⟨hdepth, hinner c hc⟩] at hends
    cases hends

end Depth

namespace Listing

variable {l : Listing} {note s t : Text}

/-- Behind the brace of the mixins, and behind what is passed there, the search is within the brace. -/
theorem BindsMixins.walk_front (h : l.BindsMixins) (hpass : s.Passable never) :
    ∃ depth, walk (topLevelVerdict endsBinding) (.code, 0) (l.lead ++ '{' :: s) = some (.code, depth + 1) := by
  have hvalue := h.value
  rw [Passable, Listing.value, walk_append (h.lead_code.apart _)] at hvalue
  obtain ⟨⟨mode, depth⟩, hlead, -⟩ := Option.bind_eq_some_iff.1 hvalue
  have hmode := (fst_of_walk hlead).trans h.lead_code.1
  dsimp only at hmode
  subst hmode
  refine ⟨depth, ?_⟩
  have hbrace : codeVerdict (topLevelVerdict endsBinding) (.code, depth) '{' s = .pass (.code, depth + 1) := by
    have hpass : topLevelVerdict endsBinding depth '{' = .pass (depth + 1) := by
      rw [topLevelVerdict, show endsBinding '{' = false from rfl, Bool.and_false]
      rfl
    exact codeVerdict_eq_pass_iff.2 ⟨rfl, fun _ => hpass, fun h => by cases h⟩
  rw [walk_append (h.lead_code.apart _), hlead, Option.bind_some]
  refine walk_cons_eq_some_iff.2 ⟨_, hbrace, ?_⟩
  have hdeep : walk (topLevelVerdict endsBinding) (.code, 0 + (depth + 1)) s = some (.code, 0 + (depth + 1)) :=
    walk_deeper hpass depth
  rwa [Nat.zero_add] at hdeep

/-- The mixins are bound with a comment in their list. -/
theorem BindsMixins.remarked (h : l.BindsMixins) (hinner : l.inner = s ++ t) (hs : s.EndsInCode)
    (hpass : s.Passable never) (hnote : '\n' ∉ note) : (l.remarked note s t).BindsMixins :=
  { h.toIsRead.remarked hinner hs hnote with
    start := h.start
    name := h.name
    line := h.line
    value := by
      obtain ⟨depth, hfront⟩ := h.walk_front hpass
      have hwhole : l.value = (l.lead ++ '{' :: s) ++ (t ++ '}' :: l.back) := by
        simp [Listing.value, hinner]
      have hinsert := (hwhole ▸ h.value).insert_remark (h.toIsRead.endsInCode hs).1 hnote fun hnone => by
        rw [Passable, hfront] at hnone
        cases hnone
      have hremarked : (l.remarked note s t).value =
          (l.lead ++ '{' :: s) ++ (remark note ++ (t ++ '}' :: l.back)) := by
        simp [Listing.value, Listing.remarked]
      rw [hremarked]
      exact hinsert }

/-- A list whose brace is not closed is taken for one reference. -/
theorem readReferences_unclosed {lead : Text} (hlead : '{' ∉ lead) (hbrace : '}' ∉ s)
    (hnone : (lead ++ '{' :: s).cutAtTopLevel? (· == ',') = none) :
    readReferences (trim (lead ++ '{' :: s)) = [trim (lead ++ '{' :: s)] := by
  have hopen : ∀ c ∈ lead.trimStart, (c == '{') = false := by
    intro c hc
    rw [beq_eq_false_iff_ne]
    rintro rfl
    exact hlead ((List.dropWhile_sublist _).subset hc)
  have hclosing : '}' ∉ s.trimEnd := by
    intro hmem
    rw [trimEnd, List.mem_reverse] at hmem
    exact hbrace (List.mem_reverse.1 ((List.dropWhile_sublist _).subset hmem))
  have htrim : trim (lead ++ '{' :: s) = lead.trimStart ++ '{' :: s.trimEnd := trim_append_cons (by decide) lead s
  have hpieces : (trim (lead ++ '{' :: s)).splitTopLevel ',' = [trim (lead ++ '{' :: s)] := by
    rw [splitTopLevel, topLevelPieces_eq, cutAtTopLevel?_trim_eq_none ne_comma_of_isBlank hnone, trim_trim]
    simp [htrim]
  have hcut : (trim (lead ++ '{' :: s)).cutAtFirst? (· == '{') = some ⟨lead.trimStart, '{' :: s.trimEnd⟩ := by
    rw [htrim]
    exact cutAtFirst?_self hopen rfl
  rw [readReferences, hcut]
  change splitTopLevel (if '}' ∈ s.trimEnd then _ else _) ',' = _
  rw [if_neg hclosing, hpieces]

/-- The list of the mixins is cut off at a comment in it, and what is left is taken for one reference. -/
theorem BindsMixins.read_remarked (h : l.BindsMixins) (hinner : l.inner = s ++ t) (hs : s.EndsInCode)
    (hpass : s.Passable never) (hnote : '\n' ∉ note) (hquote : '"' ∉ l.lead ++ '{' :: s)
    (hslashes : Text.contains (l.lead ++ '{' :: s) "//".toList = false) (hbrace : '}' ∉ s) (rest : Text) :
    Member.read ((l.remarked note s t).text ++ ';' :: rest) = (.mixins [trim (l.lead ++ '{' :: s)], rest) := by
  have hplace := (h.toIsRead.endsInCode hs).1
  have hremarked : (l.remarked note s t).value =
      (l.lead ++ '{' :: s) ++ (remark note ++ (t ++ '}' :: l.back)) := by
    simp [Listing.value, Listing.remarked]
  rw [(h.remarked hinner hs hpass hnote).read, hremarked, dropTrailingComment_remark hquote hslashes hplace.2]
  obtain ⟨depth, hfront⟩ := h.walk_front hpass
  have hcomma : ∀ c, (c == ',') = true → endsBinding c = true := by
    intro c hc
    rw [eq_of_beq hc]
    rfl
  have hnone : (l.lead ++ '{' :: s).cutAtTopLevel? (· == ',') = none := by
    rw [cutAtTopLevel?, cutInCode_eq_cutWhere]
    exact cutWhere_eq_none_of_walk (walk_weaken hfront hcomma)
  rw [readReferences_unclosed h.toIsRead.lead hbrace hnone]

end Listing

section Parameters

variable {p : MethodPieces} {blanks note t : Text}

/-- Which brace opens the body of a function does not depend on what stands in front of the sign that closes
its parameters. -/
theorem OpensBody.congr_front {x start front s : Text} {c : Char} (hc : isIdentChar c = false)
    (hblank : isBlank c = false) (hstart : start = front ++ [c]) (h : OpensBody x start s) (other : Text) :
    OpensBody x (other ++ [c]) s := by
  have hword {c : Char} (hc : isIdentChar c = false) (hblank : isBlank c = false) (front s : Text) :
      endsWithWord (front ++ [c] ++ s).reverse "error".toList = endsWithWord s.reverse "error".toList := by
    rw [List.reverse_append, List.reverse_append, List.reverse_singleton, List.singleton_append]
    exact endsWithWord_append_cons hc hblank
  induction h generalizing front other c with
  | plain hfound hplain =>
    rw [hstart, hword hc hblank] at hplain
    exact .plain hfound ((hword hc hblank other _).trans hplain)
  | @errorSet _ p names q hfound herror hset _ ih =>
    rw [hstart, hword hc hblank] at herror
    -- behind the error set the sign in front is the brace that closes it
    have hconcat (t : Text) : t ++ ('{' :: names ++ ['}']) = (t ++ '{' :: names) ++ ['}'] := by
      rw [List.append_assoc]
    refine .errorSet hfound ((hword hc hblank other _).trans herror) hset ?_
    rw [hconcat]
    exact ih (by decide) (by decide) (hconcat _) _

/-- The first parameter behind a comment starts with a slash. -/
theorem firstParamIsSelf_remark (hblanks : blanks.allBlank = true) (hnote : '\n' ∉ note) (t : Text) :
    firstParamIsSelf (blanks ++ (remark note ++ t)) = false := by
  obtain ⟨more, hmore⟩ := topLevelPieces_remark hnote t
  have hhead : ((blanks ++ (remark note ++ t)).splitTopLevel ',').head? = some ('/' :: more) := by
    rw [splitTopLevel, topLevelPieces_blanks hblanks, hmore]
    rfl
  exact firstParamIsSelf_of_slash hhead

/-- The text of a function up to a place in its parameters. -/
def MethodPieces.upTo (p : MethodPieces) (s : Text) : Text := p.qualifiers ++ (p.title ++ '(' :: s)

/-- The text of a function from a place in its parameters on. -/
def MethodPieces.onFrom (p : MethodPieces) (t : Text) : Text := t ++ ')' :: (p.result ++ ('{' :: p.body ++ ['}']))

/-- A function with a comment in front of its first parameter. -/
def MethodPieces.remarked (p : MethodPieces) (note blanks t : Text) : MethodPieces :=
  { p with params := blanks ++ (remark note ++ t) }

/-- A place in its parameters divides the text of a function. -/
theorem MethodPieces.text_eq (hparams : p.params = blanks ++ t) : p.text = p.upTo blanks ++ p.onFrom t := by
  simp [text, head, upTo, onFrom, hparams]

/-- The first parameter of a function starts in code. -/
theorem MethodPieces.IsRead.endsInCode (h : p.IsRead) (hblanks : blanks.allBlank = true) :
    (p.upTo blanks).EndsInCode := by
  have htitle : ∀ c ∈ p.title, isCodeChar c = true :=
    List.forall_mem_append.2 ⟨forall_of_all (by decide),
      List.forall_mem_append.2 ⟨isCodeChar_of_allBlank h.allBlank_gap,
        List.forall_mem_append.2 ⟨isCodeChar_of_isIdentifier h.name, isCodeChar_of_allBlank h.back⟩⟩⟩
  exact endsInCode_of_all (List.forall_mem_append.2 ⟨isCodeChar_of_qualifying h.qualifiers (by decide),
    List.forall_mem_append.2 ⟨htitle, List.forall_mem_cons.2 ⟨rfl, isCodeChar_of_allBlank hblanks⟩⟩⟩)

/-- The text of a function with a comment in front of its first parameter. -/
theorem MethodPieces.text_remarked (p : MethodPieces) (note blanks t : Text) :
    (p.remarked note blanks t).text = p.upTo blanks ++ (remark note ++ p.onFrom t) := by
  simp [text, head, title, upTo, onFrom, MethodPieces.remarked]

/-- A function is read with a comment in front of its first parameter. -/
theorem MethodPieces.IsRead.remarked (h : p.IsRead) (hparams : p.params = blanks ++ t)
    (hblanks : blanks.allBlank = true) (hnote : '\n' ∉ note) : (p.remarked note blanks t).IsRead where
  qualifiers := h.qualifiers
  gap := h.gap
  name := h.name
  back := h.back
  params := by
    intro rest
    have hclosed := h.params rest
    rw [hparams] at hclosed
    exact cutAtMatching?_insert_remark rfl rfl (by decide) hnote (endsInCode_of_allBlank hblanks) hclosed
  result := by
    intro rest
    have hopens := h.result rest
    have hhead (p : MethodPieces) : p.head = (p.qualifiers ++ p.title ++ '(' :: p.params) ++ [')'] := by
      simp [MethodPieces.head]
    rw [hhead] at hopens ⊢
    exact hopens.congr_front (by decide) (by decide) rfl _
  body := h.body

/-- A function with a comment in front of its first parameter is static. -/
theorem MethodPieces.method_remarked (p : MethodPieces) (hblanks : blanks.allBlank = true) (hnote : '\n' ∉ note)
    (t : Text) :
    (p.remarked note blanks t).method.name = p.method.name ∧ (p.remarked note blanks t).method.isStatic = true := by
  refine ⟨rfl, ?_⟩
  change (!firstParamIsSelf (blanks ++ (remark note ++ t))) = true
  rw [firstParamIsSelf_remark hblanks hnote]
  rfl

end Parameters

end ClassFlattening
