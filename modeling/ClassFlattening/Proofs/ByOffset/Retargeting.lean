import ClassFlattening.Retargeting
import ClassFlattening.Proofs.ByOffset.Entries

/-!
# Renaming and retargeting by offsets

A name is replaced and a constructor or destructor is retargeted by copying the slices around the names
that change. The range of a type's name is found by stepping over what stands in front of it, and lies
within its text, so the slices on either side of it are there.
-/

namespace ClassFlattening

section Renaming

/-- What is still to be left out of a replaced name is left out. -/
theorem renameFrom_skip (old new : Text) (mode : Mode) (inWord : Bool) (s t : Text) :
    renameFrom old new mode inWord s.length (s ++ t) =
      renameFrom old new mode ((s.getLast?.map isIdentChar).getD inWord) 0 t := by
  induction s generalizing inWord with
  | nil => rfl
  | cons c s ih =>
    rw [List.cons_append, List.length_cons, renameFrom, ih, List.getLast?_cons]
    cases s.getLast? <;> rfl

end Renaming

namespace Mention

/-- The text that a name is mentioned in. -/
def whole (mention : Mention) : Text := mention.before ++ (mention.name ++ mention.after)

/-- The range of the name. -/
def range (mention : Mention) : Nat × Nat :=
  (mention.before.size, (mention.before ++ mention.name).size)

/-- The same mention in a text with more in front. -/
def behind (mention : Mention) (front : Text) : Mention :=
  { mention with before := front ++ mention.before }

end Mention

namespace Callable

/-- The text of a function up to its body. -/
def signature (f : Callable) : Text := f.head ++ (f.params ++ ')' :: f.result)

/-- The offsets at which the parameters start and stop and the body starts. -/
def offsets (f : Callable) : Nat × Nat × Nat :=
  (f.head.size, (f.head ++ f.params).size, f.signature.size)

end Callable

namespace ByOffset

open Text

/-- Renames in a text from an offset on, given the character in front of it. -/
def Source.renameFrom (t : Source) (old new : Text) (mode : Mode) (previous : Option Char)
    (i : Nat) : Steps Text := do
  let rest ← sliceFrom t i
  match rest with
  | [] => return []
  | c :: more =>
    let (isCode, next) := mode.read (· == '/') c more
    if mode = .code && isCode && old.isPrefixOf rest && !previous.any isIdentChar then
      let behind ← sliceFrom t (i + old.size)
      if behind.startsInWord then
        return c :: (← t |>.renameFrom old new next (some c) (i + c.utf8Size))
      else return new ++ (← t |>.renameFrom old new .code old.getLast? (i + old.size))
    else return c :: (← t |>.renameFrom old new next (some c) (i + c.utf8Size))
partial_fixpoint

/-- The text with every word of its code that is the old name replaced by the new one. -/
def rename (t old new : Text) : Steps Text :=
  if old.isEmpty then return t else Source.renameFrom t old new .code none 0

/-- The offset of a type without blanks, pointer and optional signs and `const` in front. -/
def Source.skipIndirections (t : Source) (start stop : Nat) : Steps Nat := do
  let rest ← slice t start stop
  let bare : Text := rest.dropWhile fun c => isBlank c || c == '*' || c == '?'
  let start := start + (← minus rest.size bare.size)
  match bare.dropLead? "const".toList with
  | some (c :: _) => if isBlank c then t |>.skipIndirections (start + 5) stop else return start
  | _ => return start
partial_fixpoint

/-- The range of the name that a type between offsets is about. -/
def typeRange (t : Text) (start stop : Nat) : Steps (Option (Nat × Nat)) := do
  let start ← Source.skipIndirections t start stop
  let rest ← slice t start stop
  let width ← minus stop start
  let size := (rest.firstOffset? fun c => !isIdentChar c).getD width
  let name ← slice t start (start + size)
  return if name.head?.any isIdentStart then some (start, start + size) else none

/-- The first one of several parameters. -/
def firstParam (params : Text) : Steps Text := do
  let stop := (← findTopLevel params 0 [',']).getD params.size
  sliceTo params stop

/-- The range of the name in the type of `self`, if the first parameter is `self`. -/
def selfRange (params : Text) : Steps (Option (Nat × Nat)) := do
  let first ← firstParam params
  let some self := first.textOffset? "self".toList | return none
  let some index := (← sliceFrom first self).firstOffset? (· == ':') | return none
  let colon := self + index
  if (← sliceTo first self).allBlank then
    if (← slice first (self + 4) colon).allBlank then typeRange first (colon + 1) first.size
    else return none
  else return none

/-- The range of the name in a return type, if it can be that of a class. -/
def resultRange (result : Text) : Steps (Option (Nat × Nat)) := do
  if result.trim.isEmpty || result.trim ∈ voidTypes then return none
  else
    let payload := ((result.lastOffset? (· == '!')).map (· + 1)).getD 0
    let some (start, stop) ← typeRange result payload result.size | return none
    let name ← slice result start stop
    return if name ∈ voidTypes then none else some (start, stop)

/-- A name in a text, told by its range, with the text in front of it and behind it. -/
def mention (t : Text) : Option (Nat × Nat) → Steps (Option Mention)
  | some (start, stop) => do
    let before ← sliceTo t start
    let name ← slice t start stop
    return some ⟨before, name, ← sliceFrom t stop⟩
  | none => return none

/-- The offsets at which the parameters of a function start and stop and its body starts. -/
def callableOffsets (t : Text) : Steps (Option (Nat × Nat × Nat)) := do
  let some opened := t.firstOffset? (· == '(') | return none
  let some closed ← findMatching t opened '(' ')' | return none
  let some bodyOpen ← Source.findBodyOpen t (closed + 1) | return none
  return some (opened + 1, closed, bodyOpen)

/-- A constructor or destructor of an ancestor, speaking of the class of the new name. -/
def retarget (t ancestor name : Text) : Steps Text := do
  let some (start, closed, bodyOpen) ← callableOffsets t | return t
  let signature ← sliceTo t bodyOpen
  let body ← sliceFrom t bodyOpen
  let params ← slice signature start closed
  let head ← sliceTo signature start
  let self ← mention params (← selfRange params)
  let result ← sliceFrom signature (closed + 1)
  let returned ← mention result (← resultRange result)
  let returned := returned.filter fun mention =>
    mention.name = ancestor ∨ self.map Mention.name = some mention.name
  let body ← match self with
    | some mention => rename body mention.name name
    | none => pure body
  return head ++ (self.map (·.replace name)).getD params ++
    ')' :: (returned.map (·.replace name)).getD result ++ body

section Rename

variable {whole t old new : Text}

/-- A name stands at the start of a text if the text starts with it and does not go on in the word. -/
theorem standsAt_append (old rest : Text) : standsAt old (old ++ rest) = !rest.startsInWord := by
  rw [standsAt, List.drop_left, List.isPrefixOf_iff_prefix.2 (List.prefix_append old rest)]
  rfl

/-- Renaming makes no misstep: a replaced name is passed as a whole, and behind it is a rest again. -/
theorem renameFrom_eq (hne : old ≠ []) (mode : Mode) (previous : Option Char) (h : t <:+ whole) :
    Source.renameFrom whole old new mode previous (whole.offsetOf t) =
      pure (ClassFlattening.renameFrom old new mode (previous.any isIdentChar) 0 t) := by
  induction hlength : t.length using Nat.strongRecOn generalizing t mode previous with
  | ind n ih =>
    subst hlength
    rw [Source.renameFrom, sliceFrom_offsetOf h, pure_bind]
    cases t with
    | nil => rfl
    | cons c more =>
      rw [ClassFlattening.renameFrom]
      dsimp only
      generalize mode.read (· == '/') c more = step
      have hmore := (List.suffix_cons c more).trans h
      have hoffset := offsetOf_add (s := [c]) h
      rw [List.singleton_append, size_cons, size_nil, Nat.add_zero] at hoffset
      have hpass := ih more.length (Nat.lt_succ_self _) step.2 (some c) hmore rfl
      rw [← hoffset, Option.any_some] at hpass
      rw [hpass, pure_bind]
      cases hstarts : old.isPrefixOf (c :: more) with
      | false =>
        rw [standsAt, hstarts, Bool.and_false, Bool.false_and, Bool.false_and, Bool.and_false,
          if_neg Bool.false_ne_true, if_neg Bool.false_ne_true]
      | true =>
        obtain ⟨rest, hrest⟩ := List.isPrefixOf_iff_prefix.1 hstarts
        obtain ⟨d, name, rfl⟩ := List.exists_cons_of_ne_nil hne
        cases hrest
        rw [List.append_eq, ← List.cons_append] at h hpass ⊢
        have hbehind := (List.suffix_append (c :: name) rest).trans h
        have hlength : rest.length < (c :: name.append rest).length := by
          rw [List.append_eq, List.length_cons, List.length_append]
          omega
        have hreplace := ih rest.length hlength .code (c :: name).getLast? hbehind rfl
        have hleftOut := renameFrom_skip (c :: name) new .code (isIdentChar c) name rest
        have hlast : ((c :: name).getLast?).any isIdentChar =
            (name.getLast?.map isIdentChar).getD (isIdentChar c) := by
          rw [List.getLast?_cons]
          cases name.getLast? <;> rfl
        rw [← offsetOf_add h, hlast, ← hleftOut] at hreplace
        rw [standsAt_append, hreplace, offsetOf_add h, sliceFrom_offsetOf hbehind, pure_bind, pure_bind,
          Bool.and_true, List.length_cons, Nat.add_sub_cancel]
        cases startsInWord rest with
        | true =>
          rw [Bool.not_true, Bool.and_false, if_neg Bool.false_ne_true, if_pos rfl, ite_self]
        | false =>
          rw [Bool.not_false, Bool.and_true, if_neg Bool.false_ne_true]
          split <;> rfl

/-- Replacing a name makes no misstep. -/
theorem rename_eq (t old new : Text) : rename t old new = pure (ClassFlattening.rename t old new) := by
  cases old with
  | nil => rfl
  | cons c name =>
    have hrename : Source.renameFrom t (c :: name) new .code none (t.offsetOf t) = _ :=
      renameFrom_eq (List.cons_ne_nil c name) .code none (List.suffix_refl t)
    rwa [offsetOf_self] at hrename

end Rename

section Types

variable {whole t : Text}

/-- Without its indirections a type is a rest of the type. -/
theorem dropIndirections_suffix (t : Text) : dropIndirections t <:+ t := by
  fun_induction dropIndirections t with
  | case1 t bare c rest hconst hblank ih =>
    have hbare := dropLead?_eq_some_iff.1 hconst
    have hrest : c :: rest <:+ bare := ⟨_, hbare.symm⟩
    exact (ih.trans hrest).trans (List.dropWhile_suffix _)
  | case2 t bare c rest hconst hblank => exact List.dropWhile_suffix _
  | case3 t bare hconst => exact List.dropWhile_suffix _

/-- One round of stepping over the indirections of a type. -/
theorem skipIndirections_step {bare : Text}
    (hbare : t.dropWhile (fun c => isBlank c || c == '*' || c == '?') = bare) (h : t <:+ whole) :
    Source.skipIndirections whole (whole.offsetOf t) whole.size =
      match bare.dropLead? "const".toList with
      | some (c :: _) =>
        if isBlank c then Source.skipIndirections whole (whole.offsetOf bare + 5) whole.size
        else pure (whole.offsetOf bare)
      | _ => pure (whole.offsetOf bare) := by
  have hslice := sliceFrom_offsetOf h
  rw [sliceFrom] at hslice
  have hwhole : t.takeWhile (fun c => isBlank c || c == '*' || c == '?') ++ bare = t := by
    rw [← hbare, List.takeWhile_append_dropWhile]
  generalize t.takeWhile (fun c => isBlank c || c == '*' || c == '?') = front at hwhole
  have hoffset : whole.offsetOf t + (t.size - bare.size) = whole.offsetOf bare := by
    have hadd := offsetOf_add (hwhole.symm ▸ h)
    rw [hwhole] at hadd
    rw [← hadd, ← hwhole, size_append, Nat.add_sub_cancel]
  have hle : bare.size ≤ t.size := by
    rw [← hwhole, size_append]
    exact Nat.le_add_left _ _
  rw [Source.skipIndirections, hslice, pure_bind]
  dsimp only
  rw [hbare, minus_of_le hle, pure_bind, hoffset]

/-- Stepping over the indirections of a type makes no misstep. -/
theorem skipIndirections_eq (h : t <:+ whole) :
    Source.skipIndirections whole (whole.offsetOf t) whole.size =
      pure (whole.offsetOf (dropIndirections t)) := by
  fun_induction dropIndirections t with
  | case1 t bare c rest hconst hblank ih =>
    have hbare := dropLead?_eq_some_iff.1 hconst
    have hsuffix : bare <:+ whole := (List.dropWhile_suffix _).trans h
    rw [hbare] at hsuffix
    have hoffset := offsetOf_add hsuffix
    rw [← hbare] at hoffset
    rw [skipIndirections_step rfl h, hconst]
    dsimp only
    rw [if_pos hblank, ← ih ((List.suffix_append _ _).trans hsuffix), ← hoffset]
    rfl
  | case2 t bare c rest hconst hblank =>
    rw [skipIndirections_step rfl h, hconst]
    dsimp only
    rw [if_neg hblank]
  | case3 t bare hconst =>
    rw [skipIndirections_step rfl h]
    split
    · next c rest hsome => exact absurd hsome (hconst c rest)
    · rfl

/-- The word at the start of a text ends in front of the first character that is not part of it. -/
theorem size_leadingWord (t : Text) :
    (t.firstOffset? fun c => !isIdentChar c).getD t.size = t.leadingWord.size := by
  have htake := takeWhile_eq_before (fun c => !isIdentChar c) t
  simp only [Bool.not_not] at htake
  rw [firstOffset?, leadingWord, htake]
  cases t.cutAtFirst? fun c => !isIdentChar c <;> rfl

theorem whole_of_typeMention? {mention : Mention} (h : typeMention? t = some mention) :
    mention.whole = t := by
  have hbare := List.suffix_iff_eq_append.1 (dropIndirections_suffix t)
  have hword := leadingWord_append_afterLeadingWord (dropIndirections t)
  rw [typeMention?] at h
  split at h
  · cases h
  · next c rest hname =>
    split at h
    · cases h
      rw [Mention.whole, ← hname, hword, hbare]
    · cases h

/-- Finding the name that a type is about makes no misstep. -/
theorem typeRange_eq (front t : Text) :
    typeRange (front ++ t) front.size (front ++ t : Text).size =
      pure ((typeMention? t).map fun mention => (mention.behind front).range) := by
  have ht := List.suffix_append front t
  have hbare := (dropIndirections_suffix t).trans ht
  have hskip := skipIndirections_eq ht
  have hrest := sliceFrom_offsetOf hbare
  have hword := leadingWord_append_afterLeadingWord (dropIndirections t)
  have hname := slice_of_append hword hbare
  have hend := offsetOf_add (hword.symm ▸ hbare)
  have hstart : (front ++ t : Text).offsetOf (dropIndirections t) =
      size (front ++ t.take (t.length - (dropIndirections t).length)) := by
    have hwhole := List.suffix_iff_eq_append.1 (dropIndirections_suffix t)
    rw [← hwhole, ← List.append_assoc, hwhole, offsetOf_append]
  rw [hword] at hend
  rw [offsetOf_append] at hskip
  rw [sliceFrom] at hrest
  rw [typeRange, hskip, pure_bind, hrest, pure_bind, minus_of_le (offsetOf_le _ _), pure_bind,
    size_sub_offsetOf hbare, size_leadingWord]
  dsimp only
  rw [hend, hname, pure_bind, ← hend, hstart, typeMention?]
  cases (dropIndirections t).leadingWord with
  | nil => rfl
  | cons c rest =>
    rw [List.head?_cons, Option.any_some, ← size_append]
    dsimp only
    by_cases hc : isIdentStart c = true
    · rw [if_pos hc, if_pos hc]
      rfl
    · rw [if_neg hc, if_neg hc]
      rfl

/-- The parts of a text around a mentioned name. -/
theorem mention_range (m : Mention) : mention m.whole (some m.range) = pure (some m) := by
  have hname := slice_append m.before m.name m.after
  have hafter := sliceFrom_append (m.before ++ m.name) m.after
  rw [List.append_assoc] at hafter
  rw [mention, Mention.range, Mention.whole]
  dsimp only
  rw [sliceTo_append, pure_bind, hname, pure_bind, hafter]
  rfl

/-- A mention is read off the text at its range. -/
theorem mention_eq {found : Option Mention} (h : ∀ m, found = some m → m.whole = t) :
    mention t (found.map Mention.range) = pure found := by
  cases found with
  | none => rfl
  | some m =>
    rw [← h m rfl]
    exact mention_range m

/-- Reading the first parameter makes no misstep. -/
theorem firstParam_eq (params : Text) :
    firstParam params = pure (((params.cutAtTopLevel? (· == ',')).map Cut.before).getD params) := by
  have hfind := findTopLevel_one (c := ',') rfl (List.suffix_refl params)
  rw [offsetOf_self] at hfind
  rw [firstParam, hfind, pure_bind]
  cases hcut : params.cutAtTopLevel? (· == ',') with
  | none =>
    have hslice := sliceTo_append params []
    rwa [List.append_nil] at hslice
  | some cut =>
    have hwhole := whole_of_cutInCode _ hcut
    have hoffset := offsetOf_after hwhole
    have hslice := sliceTo_append cut.before cut.after
    rw [← Cut.whole, hwhole] at hslice
    dsimp only [Option.map_some, Option.getD_some]
    rw [hoffset, hslice]

/-- Finding the name in the type of `self` makes no misstep: the colon is searched from the word on, and
the word has no colon in it, so the colon stands behind the word. -/
theorem selfRange_eq (params : Text) :
    selfRange params = pure ((selfMention? params).map Mention.range) := by
  rw [selfRange, firstParam_eq, pure_bind, selfMention?]
  generalize ((params.cutAtTopLevel? (· == ',')).map Cut.before).getD params = first
  rw [textOffset?]
  cases hcalled : first.cutAtText? "self".toList with
  | none => rfl
  | some called =>
    obtain ⟨rest, hafter⟩ := exists_of_cutAtText? hcalled
    have hwhole := whole_of_cutWhere _ hcalled
    rw [Cut.whole, hafter] at hwhole
    subst hwhole
    dsimp only [Option.map_some, Option.bind_eq_bind, Option.bind_some]
    rw [sliceFrom_append, pure_bind, firstOffset?, hafter,
      cutAtFirst?_append (forall_of_all (by decide))]
    cases htyped : rest.cutAtFirst? (· == ':') with
    | none => rfl
    | some typed =>
      obtain ⟨hrest, htypedAfter⟩ := eq_of_cutAtFirst? htyped
      have hblanks := slice_append (called.before ++ "self".toList) typed.before (':' :: typed.behind)
      have hrange := typeRange_eq (called.before ++ "self".toList ++ typed.before ++ [':']) typed.behind
      have hself : size "self".toList = 4 := rfl
      have hcolon : size [':'] = 1 := rfl
      simp only [List.append_assoc, List.cons_append, List.nil_append, size_append, hself, hcolon,
        ← Nat.add_assoc] at hblanks hrange
      dsimp only [Option.map_some]
      rw [sliceTo_append, pure_bind, hrest]
      simp only [size_append, hself, ← Nat.add_assoc]
      have hdrop : List.drop 4 ("self".toList ++ typed.before) = typed.before := rfl
      have hbehind : (⟨"self".toList ++ typed.before, typed.after⟩ : Cut).behind = typed.behind := rfl
      have hthrough : (⟨"self".toList ++ typed.before, typed.after⟩ : Cut).through =
          "self".toList ++ (typed.before ++ [':']) := by
        rw [Cut.through, htypedAfter, List.append_assoc]
        rfl
      rw [hblanks, pure_bind, hrange, Option.bind_some]
      dsimp only
      rw [hdrop, hthrough, hbehind]
      cases called.before.allBlank with
      | false => rfl
      | true =>
        cases typed.before.allBlank with
        | false => rfl
        | true => cases typeMention? typed.behind <;> rfl

theorem whole_of_selfMention? {params : Text} {m : Mention} (h : selfMention? params = some m) :
    m.whole = params := by
  have hfirst : ((params.cutAtTopLevel? (· == ',')).map Cut.before).getD params <+: params := by
    cases hcut : params.cutAtTopLevel? (· == ',') with
    | none => exact List.prefix_refl params
    | some cut => exact ⟨cut.after, whole_of_cutInCode _ hcut⟩
  rw [selfMention?] at h
  generalize ((params.cutAtTopLevel? (· == ',')).map Cut.before).getD params = first at h hfirst
  simp only [Option.bind_eq_bind, Option.bind_eq_some_iff] at h
  obtain ⟨called, hcalled, typed, htyped, h⟩ := h
  split at h
  · rw [Option.bind_eq_some_iff] at h
    obtain ⟨mention, hmention, h⟩ := h
    cases h
    obtain ⟨rest, rfl⟩ := hfirst
    have hcalled := whole_of_cutWhere _ hcalled
    have htyped := typed.through_append_behind.trans (whole_of_cutWhere _ htyped)
    have hmention := whole_of_typeMention? hmention
    rw [List.drop_left]
    rw [Cut.whole] at hcalled
    rw [Mention.whole] at hmention ⊢
    rw [← hcalled, ← htyped, ← hmention]
    simp only [List.append_assoc]
  · cases h

/-- Finding the name in a return type makes no misstep. -/
theorem resultRange_eq (result : Text) :
    resultRange result = pure ((resultMention? result).map Mention.range) := by
  have hwhole := whole_cutAfterLast (· == '!') result
  have hrange :=
    typeRange_eq (result.cutAfterLast (· == '!')).before (result.cutAfterLast (· == '!')).after
  rw [← Cut.whole, hwhole] at hrange
  rw [resultRange, size_cutAfterLast_beq rfl, resultMention?]
  dsimp only
  rw [hrange, pure_bind]
  by_cases hvoid : (result.trim.isEmpty || result.trim ∈ voidTypes) = true
  · rw [if_pos hvoid, if_pos hvoid]
    rfl
  · rw [if_neg hvoid, if_neg hvoid]
    cases hmention : typeMention? (result.cutAfterLast (· == '!')).after with
    | none => rfl
    | some m =>
      have hname := slice_append ((result.cutAfterLast (· == '!')).before ++ m.before) m.name m.after
      have hm := whole_of_typeMention? hmention
      rw [Mention.whole] at hm
      rw [List.append_assoc, hm, ← Cut.whole, hwhole] at hname
      dsimp only [Option.map_some, Mention.range, Mention.behind, Option.bind_eq_bind, Option.bind_some]
      rw [hname, pure_bind]
      split <;> rfl

theorem whole_of_resultMention? {result : Text} {m : Mention} (h : resultMention? result = some m) :
    m.whole = result := by
  rw [resultMention?] at h
  split at h
  · cases h
  · simp only [Option.bind_eq_bind, Option.bind_eq_some_iff] at h
    obtain ⟨mention, hmention, h⟩ := h
    split at h
    · cases h
    · cases h
      have hpayload := whole_cutAfterLast (· == '!') result
      rw [Cut.whole, ← whole_of_typeMention? hmention, Mention.whole] at hpayload
      rw [Mention.whole, List.append_assoc, hpayload]

end Types

section Retarget

variable {t : Text}

/-- The cuts that take a function apart show its parentheses and lose nothing. -/
theorem eq_of_callable {opened closed result : Cut} {passed : Text}
    (hopened : t.cutAtFirst? (· == '(') = some opened)
    (hclosed : opened.after.cutAtMatching? '(' ')' = some closed)
    (hresult : closed.behind.cutAtBodyOpen? passed = some result) :
    opened.through = opened.before ++ ['('] ∧ closed.after = ')' :: (result.before ++ result.after) ∧
      opened.through ++ (closed.before.tail ++ closed.after) = t := by
  obtain ⟨-, hopening⟩ := eq_of_cutAtFirst? hopened
  obtain ⟨inner, hinner⟩ := exists_before_of_cutAtMatching? (by decide) hclosed
  obtain ⟨rest, hclosing⟩ := exists_of_cutAtMatching? hclosed
  have hbehind := whole_of_cutAtBodyOpen? hresult
  have hparams := whole_of_cutAtMatching? hclosed
  have hwhole := whole_of_cutWhere _ hopened
  have hthrough : opened.through = opened.before ++ ['('] := by
    rw [Cut.through, hopening]
    rfl
  rw [Cut.whole, Cut.behind, hclosing, List.tail_cons] at hbehind
  rw [Cut.whole, hinner] at hparams
  rw [Cut.whole, ← hparams] at hwhole
  refine ⟨hthrough, ?_, ?_⟩
  · rw [hclosing, hbehind]
  · rw [hthrough, hinner, List.tail_cons, ← hwhole]
    simp only [List.append_assoc, List.cons_append, List.nil_append]

/-- A function is its signature and its body. -/
theorem signature_append_body {f : Callable} (h : readCallable? t = some f) :
    f.signature ++ f.body = t := by
  simp only [readCallable?, Option.bind_eq_bind, Option.bind_eq_some_iff] at h
  obtain ⟨opened, hopened, closed, hclosed, result, hresult, h⟩ := h
  cases h
  obtain ⟨-, hclosing, hwhole⟩ := eq_of_callable hopened hclosed hresult
  rw [← hwhole, hclosing]
  simp only [Callable.signature, List.append_assoc, List.cons_append]

/-- Taking a function apart makes no misstep. -/
theorem callableOffsets_eq (t : Text) :
    callableOffsets t = pure ((readCallable? t).map Callable.offsets) := by
  rw [callableOffsets, firstOffset?, readCallable?]
  cases hopened : t.cutAtFirst? (· == '(') with
  | none => rfl
  | some opened =>
    have hwhole := whole_of_cutWhere _ hopened
    have hafter := suffix_of_cut hwhole
    dsimp only [Option.map_some, Option.bind_eq_bind, Option.bind_some]
    rw [← offsetOf_after hwhole, findMatching_eq rfl rfl rfl hafter, pure_bind]
    cases hclosed : opened.after.cutAtMatching? '(' ')' with
    | none => rfl
    | some closed =>
      have hpassed : (opened.before ++ closed.through).reverse.reverse ++ closed.behind = t := by
        rw [List.reverse_reverse, List.append_assoc, closed.through_append_behind,
          whole_of_cutAtMatching? hclosed]
        exact hwhole
      dsimp only [Option.map_some, Option.bind_some]
      rw [offsetOf_behind rfl hclosed hafter, findBodyOpen_eq hpassed, pure_bind]
      cases hresult : closed.behind.cutAtBodyOpen? (opened.before ++ closed.through).reverse with
      | none => rfl
      | some result =>
        obtain ⟨hthrough, hclosing, hparts⟩ := eq_of_callable hopened hclosed hresult
        have hstart : opened.before.size + 1 = opened.through.size := by
          rw [hthrough, size_append]
          rfl
        have hstop : t.offsetOf closed.after = (opened.through ++ closed.before.tail).size := by
          rw [← hparts, ← List.append_assoc, offsetOf_append]
        have hbody : t.offsetOf result.after =
            (opened.through ++ (closed.before.tail ++ ')' :: result.before)).size := by
          rw [← hparts, hclosing, ← offsetOf_append _ result.after]
          simp only [List.append_assoc, List.cons_append]
        dsimp only [Option.map_some]
        rw [offsetOf_after hwhole, hstart, hstop, hbody]
        rfl

/-- Only a mention with the property is replaced. -/
theorem replaced_eq (p : Mention → Prop) [DecidablePred p] (found : Option Mention) (name : Text) :
    ((found.filter fun m => p m).map (·.replace name)).getD t =
      match found with
      | some m => if p m then m.replace name else t
      | none => t := by
  cases found with
  | none => rfl
  | some m =>
    by_cases hp : p m
    · simp only [Option.filter_some, hp, decide_true, if_true]
      rfl
    · simp only [Option.filter_some, hp, decide_false, Bool.false_eq_true, if_false]
      rfl

/-- Retargeting makes no misstep: the names it replaces lie within the parameters and the return type,
and these lie within the signature. -/
theorem retarget_eq (t ancestor name : Text) :
    retarget t ancestor name = pure (ClassFlattening.retarget t ancestor name) := by
  rw [retarget, callableOffsets_eq, pure_bind, ClassFlattening.retarget]
  cases hread : readCallable? t with
  | none => rfl
  | some f =>
    have hwhole := signature_append_body hread
    have hhead := sliceTo_append f.head (f.params ++ ')' :: f.result)
    have hparams := slice_append f.head f.params (')' :: f.result)
    have hresult := sliceFrom_append_add_one (c := ')') rfl (f.head ++ f.params) f.result
    rw [List.append_assoc] at hresult
    subst hwhole
    dsimp only [Option.map_some, Callable.offsets]
    rw [sliceTo_append, pure_bind, sliceFrom_append, pure_bind, Callable.signature, hparams, pure_bind,
      hhead, pure_bind, selfRange_eq, pure_bind, mention_eq fun _ => whole_of_selfMention?, pure_bind,
      hresult, pure_bind, resultRange_eq, pure_bind, mention_eq fun _ => whole_of_resultMention?,
      pure_bind]
    generalize selfMention? f.params = self
    rw [replaced_eq]
    cases self with
    | none => rfl
    | some m =>
      dsimp only
      rw [rename_eq, pure_bind]
      rfl

end Retarget

end ByOffset

end ClassFlattening
