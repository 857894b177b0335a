import ClassFlattening.Proofs.ByOffset.Brackets
import ClassFlattening.Proofs.ByOffset.Words

/-!
# Lines, lists and properties by their offsets

The readers of short texts: the end of a line, a list of references, the first parameter of a function,
a block of properties and the name that a binding is about.
-/

namespace ClassFlattening

namespace Text

section Cuts

variable {t : Text} {p : Char → Bool}

/-- The search for a character passes the characters without the property. -/
theorem dropWhile_eq_after (p : Char → Bool) (t : Text) :
    t.dropWhile (fun c => !p c) = ((t.cutAtFirst? p).map Cut.after).getD [] := by
  induction t with
  | nil => rfl
  | cons c rest ih =>
    rw [cutAtFirst?] at ih ⊢
    rw [cutWhere_cons, List.dropWhile_cons]
    cases hc : p c with
    | true => rfl
    | false =>
      simp only [Bool.false_eq_true, if_false, Bool.not_false, if_true, ih, Option.map_map]
      rfl

/-- What such a search passes is what is in front of the character that it finds. -/
theorem takeWhile_eq_before (p : Char → Bool) (t : Text) :
    t.takeWhile (fun c => !p c) = ((t.cutAtFirst? p).map Cut.before).getD t := by
  induction t with
  | nil => rfl
  | cons c rest ih =>
    rw [cutAtFirst?] at ih ⊢
    rw [cutWhere_cons, List.takeWhile_cons]
    cases hc : p c with
    | true => rfl
    | false =>
      simp only [Bool.false_eq_true, if_false, Bool.not_false, if_true, ih, Option.map_map]
      cases cutWhere _ () rest <;> rfl

/-- The first line of a text with one more character in front. -/
theorem cutLine_cons (c : Char) (rest : Text) :
    cutLine (c :: rest) =
      if c = '\n' then ⟨[c], rest⟩ else ⟨c :: rest.cutLine.before, rest.cutLine.after⟩ := by
  rw [cutLine, cutLine, cutAtFirst?, cutWhere_cons]
  by_cases hc : c = '\n'
  · subst hc
    rfl
  · rw [if_neg hc, if_neg (by rwa [beq_iff_eq]), cutAtFirst?]
    dsimp only
    cases cutWhere _ () rest <;> rfl

/-- A line and the text behind it make up the text. -/
theorem whole_cutLine (t : Text) : t.cutLine.whole = t := by
  induction t with
  | nil => rfl
  | cons c rest ih =>
    rw [cutLine_cons]
    split
    · rfl
    · exact congrArg (c :: ·) ih

/-- A character is found on the first line if it is found in the line. -/
theorem cutOnLine?_eq (hc : c ≠ '\n') (t : Text) :
    t.cutOnLine? c =
      (t.cutLine.before.cutAtFirst? (· == c)).map
        fun cut => ⟨cut.before, cut.after ++ t.cutLine.after⟩ := by
  induction t with
  | nil => rfl
  | cons d rest ih =>
    rw [cutOnLine?, cutAtFirst?] at ih ⊢
    rw [cutWhere_cons, cutLine_cons]
    by_cases hd : d = '\n'
    · rw [if_pos hd, if_neg (by rw [beq_iff_eq, hd]; exact hc.symm), if_pos (beq_iff_eq.2 hd),
        cutWhere_cons, if_neg (by rw [beq_iff_eq, hd]; exact hc.symm)]
      rfl
    · rw [if_neg hd, if_neg (by rwa [beq_iff_eq] : ¬(d == '\n') = true), cutWhere_cons]
      by_cases hfound : (d == c) = true
      · rw [if_pos hfound]
        dsimp only [Option.map_some]
        rw [List.cons_append, ← Cut.whole, whole_cutLine]
      · rw [if_neg hfound]
        dsimp only
        rw [ih, Option.map_map, Option.map_map]
        rfl

/-- The text behind a line is a rest of the text. -/
theorem cutLine_suffix (t : Text) : t.cutLine.after <:+ t := suffix_of_cut (whole_cutLine t)

theorem lastOffset?_append (p : Char → Bool) {s u : Text} {d : Char} (hd : p d = true)
    (hu : ∀ e ∈ u, p e = false) :
    lastOffset? p (s ++ d :: u) = some s.size := by
  rw [lastOffset?, cutAfterLast_append p hd hu]
  cases s with
  | nil => rfl
  | cons c rest =>
    rw [List.cons_append]
    dsimp only
    rw [← List.cons_append, List.dropLast_concat]

theorem lastOffset?_of_none (p : Char → Bool) (h : ∀ e ∈ t, p e = false) : lastOffset? p t = none := by
  rw [lastOffset?, cutAfterLast_of_none p h]

/-- The cut behind the last character with a property loses nothing. -/
theorem whole_cutAfterLast (p : Char → Bool) (t : Text) : (t.cutAfterLast p).whole = t := by
  rw [Cut.whole, cutAfterLast, ← List.reverse_append, List.takeWhile_append_dropWhile, List.reverse_reverse]

/-- What follows the last character with a property starts one byte behind it, where the characters with
the property are of one byte. -/
theorem size_cutAfterLast (hp : ∀ d, p d = true → d.utf8Size = 1) (t : Text) :
    ((t.lastOffset? p).map (· + 1)).getD 0 = (t.cutAfterLast p).before.size := by
  obtain ⟨s, d, u, rfl, hd, hu⟩ | hnone := last_cases p t
  · rw [lastOffset?_append p hd hu, cutAfterLast_append p hd hu, size_append, size_cons, hp d hd]
    rfl
  · rw [lastOffset?_of_none p hnone, cutAfterLast_of_none p hnone]
    rfl

/-- What follows the last one of a character of one byte starts one byte behind it. -/
theorem size_cutAfterLast_beq (hc : c.utf8Size = 1) (t : Text) :
    ((t.lastOffset? (· == c)).map (· + 1)).getD 0 = (t.cutAfterLast (· == c)).before.size :=
  size_cutAfterLast (fun d hd => by rwa [eq_of_beq hd]) t

end Cuts

end Text

namespace ByOffset

open Text

/-- The offset behind the line of an offset. -/
def lineEnd (t : Text) (start : Nat) : Steps Nat := do
  let rest ← sliceFrom t start
  match rest.firstOffset? (· == '\n') with
  | some index => return start + index + 1
  | none => return t.size

/-- The offset of the first character that is not blank, from an offset on. -/
def skipBlanks (t : Text) (start : Nat) : Steps Nat := do
  let rest ← sliceFrom t start
  match rest.firstOffset? fun c => !isBlank c with
  | some index => return start + index
  | none => return t.size

/-- The text without a comment at its end; a comment behind a quote is left alone. -/
def dropTrailingComment (element : Text) : Steps Text := do
  let some index := element.textOffset? "//".toList | return element
  let front ← sliceTo element index
  return if '"' ∈ front then element else front

/-- The references of a list in braces, or of a text without braces. -/
def readReferences (value : Text) : Steps (List Text) := do
  let inner ← match value.firstOffset? (· == '{'), value.lastOffset? (· == '}') with
    | some opened, some closed =>
      if opened < closed then slice value (opened + 1) closed else pure value
    | _, _ => pure value
  splitTopLevel inner ','

/-- Whether the first parameter is called `self` and has a type. -/
def firstParamIsSelf (params : Text) : Steps Bool := do
  let parts ← splitTopLevel params ','
  let some first := parts.head? | return false
  let some rest := first.dropLead? "self".toList | return false
  return rest.trimStart.head? == some ':'

/-- The text between the first brace and the one that closes it. -/
def bracedText (t : Text) : Steps (Option Text) := do
  let some opened := t.firstOffset? (· == '{') | return none
  let some closed ← findMatching t opened '{' '}' | return none
  return some (← slice t (opened + 1) closed)

end ByOffset

/-- A property with one more option of a key and a value. -/
def Property.withValue (p : Property) (key value : Text) : Property :=
  if key = "type".toList then { p with type := value }
  else if key = "access".toList ∧ value.dropLeading '.' = "read_only".toList then
    { p with access := .readOnly }
  else if key = "default".toList then { p with value := some value }
  else p

namespace ByOffset

open Text

/-- One option of a property, applied to what the earlier options gave. -/
def withOption (p : Property) (entry : Text) : Steps Property := do
  let some index := entry.firstOffset? (· == '=') | return p
  let value ← sliceFrom entry (index + 1)
  let key ← sliceTo entry index
  return p.withValue (key.trim.dropLeading '.') value.trim

/-- Reads a property. The type is required. -/
def readProperty (entry : Text) : Steps (Option Property) := do
  let some index := entry.firstOffset? (· == '=') | return none
  let named ← sliceTo entry index
  let name := (named.trim.dropLeading '.').trim
  if isIdentifier name then
    let value ← sliceFrom entry (index + 1)
    let some options ← bracedText value.trim | return none
    let entries ← splitTopLevel options ','
    let property ← entries.foldlM withOption ⟨name, [], none, .readWrite⟩
    return if property.type.isEmpty then none else some property
  else return none

/-- Reads the value of a block of properties. -/
def readProperties (value : Text) : Steps (List Property) := do
  let some entries ← bracedText value | return []
  let properties ← (← splitTopLevel entries ',').mapM readProperty
  return properties.filterMap id

/-- The name that a binding is about. -/
def bindingName (binding : Text) : Steps Text := do
  let bare ← stripQualifiers ["pub".toList, "const".toList, "var".toList] binding
  return trim (bare.takeWhile (· != ':'))

section Lines

variable {whole t : Text}

theorem lineEnd_eq (h : t <:+ whole) :
    lineEnd whole (whole.offsetOf t) = pure (whole.offsetOf t.cutLine.after) := by
  rw [lineEnd, sliceFrom_offsetOf h, pure_bind, firstOffset?, cutLine]
  cases hcut : t.cutAtFirst? (· == '\n') with
  | none => rfl
  | some cut =>
    have hwhole := whole_of_cutWhere _ hcut
    have hafter := (eq_of_cutAtFirst? hcut).2
    have hsuffix := (suffix_of_cut hwhole).trans h
    dsimp only [Option.map_some]
    rw [offsetOf_cut hwhole h]
    rw [hafter] at hsuffix ⊢
    rw [offsetOf_add_one rfl hsuffix]

theorem skipBlanks_eq (h : t <:+ whole) :
    skipBlanks whole (whole.offsetOf t) = pure (whole.offsetOf t.trimStart) := by
  have htrim := dropWhile_eq_after (fun c => !isBlank c) t
  simp only [Bool.not_not] at htrim
  rw [skipBlanks, sliceFrom_offsetOf h, pure_bind, firstOffset?, trimStart, htrim]
  cases hcut : t.cutAtFirst? fun c => !isBlank c with
  | none => rfl
  | some cut =>
    dsimp only [Option.map_some]
    rw [offsetOf_cut (whole_of_cutWhere _ hcut) h]
    rfl

theorem dropTrailingComment_eq (t : Text) : dropTrailingComment t = pure t.dropTrailingComment := by
  rw [dropTrailingComment, textOffset?, Text.dropTrailingComment]
  cases hcut : t.cutAtText? "//".toList with
  | none => rfl
  | some cut =>
    have hwhole := whole_of_cutWhere _ hcut
    subst hwhole
    dsimp only [Option.map_some]
    rw [Cut.whole, sliceTo_append]
    rfl

theorem firstParamIsSelf_eq (params : Text) :
    firstParamIsSelf params = pure (ClassFlattening.firstParamIsSelf params) := by
  rw [firstParamIsSelf, splitTopLevel_eq rfl, pure_bind, ClassFlattening.firstParamIsSelf]
  cases (params.splitTopLevel ',').head? with
  | none => rfl
  | some first =>
    dsimp only
    cases first.dropLead? "self".toList <;> rfl

theorem bracedText_eq (t : Text) : bracedText t = pure (bracedText? t) := by
  rw [bracedText, firstOffset?, bracedText?]
  cases hcut : t.cutAtFirst? (· == '{') with
  | none => rfl
  | some opened =>
    have hopened := whole_of_cutWhere _ hcut
    have hafter := suffix_of_cut hopened
    dsimp only [Option.map_some, Option.bind_eq_bind, Option.bind_some]
    rw [← offsetOf_after hopened, findMatching_eq rfl rfl rfl hafter, pure_bind]
    cases hclosed : opened.after.cutAtMatching? '{' '}' with
    | none => rfl
    | some closed =>
      dsimp only [Option.map_some]
      rw [slice_inside (by decide) rfl hclosed hafter]
      rfl

/-- Reading a list of references makes no misstep: the last closing brace stands either behind the
first opening one, and then the slice between them is taken, or in front of it. -/
theorem readReferences_eq (value : Text) :
    readReferences value = pure (ClassFlattening.readReferences value) := by
  rw [readReferences, firstOffset?, ClassFlattening.readReferences]
  cases hcut : value.cutAtFirst? (· == '{') with
  | none =>
    dsimp only [Option.map_none]
    rw [pure_bind, splitTopLevel_eq rfl]
  | some opened =>
    obtain ⟨hvalue, -⟩ := eq_of_cutAtFirst? hcut
    dsimp only [Option.map_some]
    obtain ⟨s, d, u, hsplit, hd, hu⟩ | hnone := last_cases (· == '}') opened.behind
    · have hmem : '}' ∈ opened.behind := by
        rw [hsplit, ← eq_of_beq hd]
        exact List.mem_append_right s List.mem_cons_self
      have hlast := lastOffset?_append (· == '}') (s := opened.before ++ '{' :: s) hd hu
      have hslice := slice_append (opened.before ++ ['{']) s (d :: u)
      have hsize : size ['{'] = 1 := rfl
      rw [size_append, hsize] at hslice
      rw [if_pos hmem, hsplit, cutAfterLast_append (· == '}') hd hu, List.dropLast_concat]
      simp only [List.append_assoc, List.cons_append, List.nil_append] at hlast hslice
      rw [hvalue, hsplit, hlast]
      dsimp only
      rw [if_pos, hslice, pure_bind, splitTopLevel_eq rfl]
      rw [size_append, size_cons]
      have hpos := ('{' : Char).utf8Size_pos
      omega
    · have hnone : ∀ e ∈ '{' :: opened.behind, (e == '}') = false :=
        List.forall_mem_cons.2 ⟨rfl, hnone⟩
      have hmem : '}' ∉ opened.behind := by
        intro hmem
        cases hnone '}' (List.mem_cons_of_mem _ hmem)
      rw [if_neg hmem, hvalue]
      obtain ⟨s, d, u, hsplit, hd, hu⟩ | hbefore := last_cases (· == '}') opened.before
      · have hrest := List.forall_mem_append.2 ⟨hu, hnone⟩
        rw [hsplit, List.append_assoc, List.cons_append, lastOffset?_append (· == '}') hd hrest]
        dsimp only
        rw [if_neg, pure_bind, splitTopLevel_eq rfl]
        rw [size_append]
        omega
      · have hwhole := List.forall_mem_append.2 ⟨hbefore, hnone⟩
        rw [lastOffset?_of_none (· == '}') hwhole, pure_bind, splitTopLevel_eq rfl]

theorem withOption_eq (p : Property) (entry : Text) : withOption p entry = pure (p.withOption entry) := by
  rw [withOption, firstOffset?, Property.withOption]
  cases hcut : entry.cutAtFirst? (· == '=') with
  | none => rfl
  | some cut =>
    obtain ⟨hentry, -⟩ := eq_of_cutAtFirst? hcut
    dsimp only [Option.map_some]
    rw [hentry, sliceFrom_append_add_one rfl, pure_bind, sliceTo_append, pure_bind]
    rfl

theorem readProperty_eq (entry : Text) : readProperty entry = pure (readProperty? entry) := by
  have hoption : withOption = fun p entry => pure (p.withOption entry) :=
    funext fun p => funext (withOption_eq p)
  rw [readProperty, firstOffset?, readProperty?]
  cases hcut : entry.cutAtFirst? (· == '=') with
  | none => rfl
  | some cut =>
    obtain ⟨hentry, -⟩ := eq_of_cutAtFirst? hcut
    dsimp only [Option.map_some, Option.bind_eq_bind, Option.bind_some]
    rw [hentry, sliceFrom_append_add_one rfl, sliceTo_append, pure_bind]
    split
    · rw [pure_bind, bracedText_eq, pure_bind]
      cases bracedText? cut.behind.trim with
      | none => rfl
      | some options =>
        dsimp only
        rw [splitTopLevel_eq rfl, pure_bind, hoption, List.foldlM_pure, pure_bind]
        rfl
    · rfl

theorem readProperties_eq (value : Text) :
    readProperties value = pure (ClassFlattening.readProperties value) := by
  have hread : readProperty = fun entry => pure (readProperty? entry) := funext readProperty_eq
  rw [readProperties, bracedText_eq, pure_bind, ClassFlattening.readProperties]
  cases bracedText? value with
  | none => rfl
  | some entries =>
    dsimp only
    rw [splitTopLevel_eq rfl, pure_bind, hread, List.mapM_pure, pure_bind, List.filterMap_map]
    rfl

theorem bindingName_eq (binding : Text) :
    bindingName binding = pure (ClassFlattening.bindingName binding) := by
  rw [bindingName, stripQualifiers_eq rfl, pure_bind, ClassFlattening.bindingName]

end Lines

end ByOffset

end ClassFlattening
