import ClassFlattening.Proofs.ByOffset.Entries

/-!
# Members by their offsets

A class body is read member by member from an offset to the offset behind the member. Every slice on the
way lies between two rests of the body, and every member ends behind the offset at which it starts, so
the walk over the body comes to its end.
-/

namespace ClassFlattening

namespace Text

/-- One round of the search for the body of a function. -/
theorem cutAtBodyOpen?_eq (t passed : Text) :
    t.cutAtBodyOpen? passed =
      match t.cutAtTopLevel? (· == '{') with
      | none => none
      | some cut =>
        if endsWithWord (cut.before.reverse ++ passed) "error".toList then
          match cut.after.cutAtMatching? '{' '}' with
          | none => none
          | some set =>
            (set.behind.cutAtBodyOpen? (set.through.reverse ++ (cut.before.reverse ++ passed))).map
              fun rest => ⟨cut.before ++ (set.through ++ rest.before), rest.after⟩
        else some cut := by
  rw [cutAtBodyOpen?]
  split
  · next hcut => rw [hcut]
  · next cut hcut =>
    rw [hcut]
    dsimp only
    split
    · split
      · next hclosed => rw [hclosed]
      · next set hclosed => rw [hclosed]
    · rfl

section BodyOpen

variable {t passed more : Text} {c : Char}

/-- How a text ends is told without what is in front of a character that is neither blank nor part of a
word. -/
theorem endsWithWord_append (hmem : c ∈ passed) (hblank : isBlank c = false)
    (hident : isIdentChar c = false) (word : Text) :
    endsWithWord (passed ++ more) word = endsWithWord passed word := by
  have hkept : c ∈ passed.trimStart := by
    have hwhole : passed.takeWhile isBlank ++ passed.trimStart = passed :=
      List.takeWhile_append_dropWhile
    rw [← hwhole, List.mem_append] at hmem
    refine hmem.resolve_left fun htake => ?_
    rw [List.mem_takeWhile_imp htake] at hblank
    cases hblank
  have htrim : (passed ++ more).trimStart = passed.trimStart ++ more := by
    rw [trimStart, List.dropWhile_append, if_neg]
    · rfl
    · rw [List.isEmpty_iff]
      exact List.ne_nil_of_mem hkept
  have hlead : (passed.trimStart ++ more).leadingWord = passed.trimStart.leadingWord := by
    rw [leadingWord, List.takeWhile_append, if_neg]
    · rfl
    · intro hlength
      have hall := (List.takeWhile_prefix isIdentChar).eq_of_length hlength
      rw [← hall] at hkept
      rw [List.mem_takeWhile_imp hkept] at hident
      cases hident
  rw [endsWithWord, htrim, hlead, endsWithWord]

/-- The body of a function is found without what is in front of such a character. -/
theorem cutAtBodyOpen?_append (hmem : c ∈ passed) (hblank : isBlank c = false)
    (hident : isIdentChar c = false) :
    t.cutAtBodyOpen? (passed ++ more) = t.cutAtBodyOpen? passed := by
  fun_induction cutAtBodyOpen? t passed with
  | case1 t passed hcut => rw [cutAtBodyOpen?_eq, hcut]
  | case2 t passed cut hcut front hword hclosed =>
    rw [cutAtBodyOpen?_eq, hcut]
    dsimp only
    rw [← List.append_assoc, endsWithWord_append (List.mem_append_right _ hmem) hblank hident,
      if_pos hword, hclosed]
  | case3 t passed cut hcut front hword set hclosed ih =>
    rw [cutAtBodyOpen?_eq, hcut]
    dsimp only
    rw [← List.append_assoc, endsWithWord_append (List.mem_append_right _ hmem) hblank hident,
      if_pos hword, hclosed]
    dsimp only
    rw [← List.append_assoc, ih (List.mem_append_right _ (List.mem_append_right _ hmem))]
  | case4 t passed cut hcut front hword =>
    rw [cutAtBodyOpen?_eq, hcut]
    dsimp only
    rw [← List.append_assoc, endsWithWord_append (List.mem_append_right _ hmem) hblank hident,
      if_neg hword]

end BodyOpen

end Text

namespace ByOffset

open Text

/-- The value of a binding and the offset behind it. -/
def readBound (body : Text) (start : Nat) : Steps (Text × Nat) := do
  match ← findTopLevel body start [';', ',', '\n'] with
  | some stop => return (← slice body start stop, stop + 1)
  | none => return (← slice body start body.size, body.size)

/-- Reads the binding that names the parent or the mixins. -/
def readReferenceBinding (body : Text) (start : Nat) : Steps (Option (Member × Nat)) := do
  let line ← slice body start (← lineEnd body start)
  let some index := line.firstOffset? (· == '=') | return none
  let name ← bindingName (← sliceTo line index)
  if name = "extends".toList ∨ name = "mixins".toList then
    let (bound, next) ← readBound body (start + index + 1)
    let value := (← dropTrailingComment bound).trim
    if name = "mixins".toList then return some (.mixins (← readReferences value), next)
    else if value.isEmpty then return some (.nothing, next)
    else return some (.parent value, next)
  else return none

/-- Reads a constant or a variable up to its semicolon. -/
def readConstant (body : Text) (start : Nat) : Steps (Member × Nat) := do
  match ← readReferenceBinding body start with
  | some read => return read
  | none =>
    let some semicolon ← findTopLevel body start [';'] | return (.nothing, ← lineEnd body start)
    let statement ← slice body start semicolon
    let next := semicolon + 1
    let some index := statement.firstOffset? (· == '=') | return (.nothing, next)
    let name ← bindingName (← sliceTo statement index)
    let value ← sliceFrom statement (index + 1)
    if name = "properties".toList then return (.properties (← readProperties value.trim), next)
    else if name.isEmpty then return (.nothing, next)
    else return (.constant ⟨name, ← slice body start next⟩, next)

/-- The member that a field's name, type and default value stand for. -/
def fieldMember (name type : Text) (value : Option Text) : Steps Member := do
  if name = "extends".toList then return .parent type
  else if name = "mixins".toList then return .mixins (← readReferences type)
  else if type.isEmpty then return .nothing
  else return .field ⟨name, type, value.filter fun v => !v.isEmpty⟩

/-- The text of a field and the offset behind it. -/
def fieldElement (body : Text) (start : Nat) : Steps (Text × Nat) := do
  match ← findTopLevel body start [','] with
  | some comma => return (← slice body start comma, comma + 1)
  | none => return (← sliceFrom body start, body.size)

/-- Reads a field up to its comma, or to the end of the body. -/
def readField (body : Text) (start : Nat) : Steps (Member × Nat) := do
  let (element, next) ← fieldElement body start
  let element ← dropTrailingComment element
  let some colon := element.firstOffset? (· == ':') | return (.nothing, ← lineEnd body start)
  let named ← sliceTo element colon
  if '=' ∈ named ∨ isIdentifier named.trim = false then return (.nothing, ← lineEnd body start)
  else
    let typed ← sliceFrom element (colon + 1)
    match ← findTopLevel typed 0 ['='] with
    | some index =>
      let type ← sliceTo typed index
      let value ← sliceFrom typed (index + 1)
      return (← fieldMember named.trim type.trim (some value.trim), next)
    | none => return (← fieldMember named.trim typed.trim none, next)

/-- Reads a function, qualifiers included, up to the brace that closes its body. -/
def readMethod (body : Text) (start : Nat) : Steps (Option (Method × Nat)) := do
  let rest ← sliceFrom body start
  let some index ← findKeyword rest "fn".toList | return none
  let keyword := start + index
  let some index := (← sliceFrom body keyword).firstOffset? (· == '(') | return none
  let opened := keyword + index
  let name ← slice body (keyword + 2) opened
  if isIdentifier name.trim then
    let some closed ← findMatching body opened '(' ')' | return none
    let some bodyOpen ← Source.findBodyOpen body (closed + 1) | return none
    let some bodyClose ← findMatching body bodyOpen '{' '}' | return none
    let params ← slice body (opened + 1) closed
    let source ← slice body start (bodyClose + 1)
    let signature ← slice body start bodyOpen
    let returnType ← slice body (closed + 1) bodyOpen
    let hasSelf ← firstParamIsSelf params
    let method : Method :=
      { name := name.trim
        source
        signature := signature.trim
        returnType := returnType.trim
        isStatic := !hasSelf }
    return some (method, bodyClose + 1)
  else return none

/-- The offset behind the block that opens at the first brace. -/
def skipBlock (body : Text) (start : Nat) : Steps Nat := do
  let rest ← sliceFrom body start
  let some index := rest.firstOffset? (· == '{') | lineEnd body start
  let some closed ← findMatching body (start + index) '{' '}' | return body.size
  return closed + 1

/-- Reads the member at an offset and returns it with the offset behind it. -/
def readMember (body : Text) (start : Nat) : Steps (Member × Nat) := do
  let rest ← sliceFrom body start
  if "//".toList.isPrefixOf rest then return (.nothing, ← lineEnd body start)
  else
    let unqualified ← stripQualifiers ["pub".toList, "inline".toList, "export".toList] rest
    if "fn ".toList.isPrefixOf unqualified || "fn\t".toList.isPrefixOf unqualified then
      match ← readMethod body start with
      | some (method, next) => return (.method method, next)
      | none => return (.nothing, ← lineEnd body start)
    else if (← isBlockStatement unqualified "comptime".toList) ||
        (← isBlockStatement unqualified "test".toList) then
      return (.nothing, ← skipBlock body start)
    else if startsWithKeyword unqualified "const".toList ||
        startsWithKeyword unqualified "var".toList then
      readConstant body start
    else readField body start

/-- The members of a class body from an offset on. Should a member not end behind the offset at which it
starts, the walk goes on one byte further. -/
def Source.readMembers (body : Source) (cursor : Nat) : Steps (List Member) := do
  let start ← skipBlanks body cursor
  if body.size ≤ start then return []
  else
    let (member, next) ← readMember body start
    return member :: (← body |>.readMembers (max next (start + 1)))
partial_fixpoint

section Members

variable {body t : Text}

theorem skipBlock_eq (h : t <:+ body) :
    skipBlock body (body.offsetOf t) = pure (body.offsetOf (dropBlock t)) := by
  rw [skipBlock, sliceFrom_offsetOf h, pure_bind, firstOffset?, dropBlock]
  cases hcut : t.cutAtFirst? (· == '{') with
  | none => exact lineEnd_eq h
  | some opened =>
    have hwhole := whole_of_cutWhere _ hcut
    have hafter := (suffix_of_cut hwhole).trans h
    dsimp only [Option.map_some]
    rw [offsetOf_cut hwhole h, findMatching_eq rfl rfl rfl hafter, pure_bind]
    cases hclosed : opened.after.cutAtMatching? '{' '}' with
    | none => rfl
    | some closed =>
      dsimp only [Option.map_some]
      rw [offsetOf_behind rfl hclosed hafter]

theorem readBound_eq (h : t <:+ body) :
    readBound body (body.offsetOf t) =
      pure ((ClassFlattening.readBound t).1, body.offsetOf (ClassFlattening.readBound t).2) := by
  have hp : ∀ c : Char, (c == ';' || c == ',' || c == '\n') = [';', ',', '\n'].contains c := by
    intro c
    rw [List.contains_cons, List.contains_cons, List.contains_cons, List.contains_nil, Bool.or_false,
      Bool.or_assoc]
  rw [readBound, findTopLevel_eq rfl hp h, pure_bind, ClassFlattening.readBound]
  cases hcut : t.cutAtTopLevel? fun c => c == ';' || c == ',' || c == '\n' with
  | none =>
    have hslice := sliceFrom_offsetOf h
    rw [sliceFrom] at hslice
    dsimp only [Option.map_none]
    rw [hslice]
    rfl
  | some ended =>
    dsimp only [Option.map_some]
    rw [slice_of_append (whole_of_cutInCode _ hcut) h, pure_bind, offsetOf_behind_target rfl hp hcut h]

theorem readReferenceBinding_eq (h : t <:+ body) :
    readReferenceBinding body (body.offsetOf t) =
      pure ((readReferenceBinding? t).map fun read => (read.1, body.offsetOf read.2)) := by
  rw [readReferenceBinding, lineEnd_eq h, pure_bind, slice_of_append (whole_cutLine t) h, pure_bind,
    firstOffset?, readReferenceBinding?, cutOnLine?_eq (by decide)]
  cases hcut : t.cutLine.before.cutAtFirst? (· == '=') with
  | none => rfl
  | some cut =>
    obtain ⟨hline, hafter⟩ := eq_of_cutAtFirst? hcut
    have ht : cut.before ++ '=' :: (cut.behind ++ t.cutLine.after) = t := by
      rw [← List.cons_append, ← List.append_assoc, ← hline, ← Cut.whole, whole_cutLine]
    have hsuffix := h
    rw [← ht] at hsuffix
    have hbound : body.offsetOf t + cut.before.size + 1 =
        body.offsetOf (cut.behind ++ t.cutLine.after) := by
      rw [← offsetOf_add_one rfl ((List.suffix_append _ _).trans hsuffix), ← offsetOf_add hsuffix, ht]
    have hbehind : (⟨cut.before, cut.after ++ t.cutLine.after⟩ : Cut).behind =
        cut.behind ++ t.cutLine.after := by
      rw [Cut.behind, hafter]
      rfl
    dsimp only [Option.map_some, Option.bind_eq_bind, Option.bind_some]
    rw [hline, sliceTo_append, pure_bind, bindingName_eq, pure_bind, hbehind]
    split
    · next hname =>
      rw [hbound, readBound_eq ((List.suffix_cons _ _).trans ((List.suffix_append _ _).trans hsuffix)),
        pure_bind]
      dsimp only
      rw [dropTrailingComment_eq, pure_bind]
      split
      · rw [readReferences_eq, pure_bind]
        rfl
      · split
        · rfl
        · rfl
    · rfl

/-- A cut at a word shows the word. -/
theorem exists_of_cutAtWord? {word : Text} {cut : Cut} (h : t.cutAtWord? word = some cut) :
    ∃ rest, cut.after = word ++ rest := by
  obtain ⟨inWord, c, rest, hafter, hstop⟩ := exists_stop_of_cutWhere h
  split at hstop
  · next hword =>
    rw [Bool.and_eq_true, beq_iff_eq] at hword
    refine ⟨afterLeadingWord (c :: rest), ?_⟩
    rw [hafter, ← hword.2, leadingWord_append_afterLeadingWord]
  · cases hstop

/-- The name of a function is what stands between its keyword and its parameters. -/
theorem slice_name {qualified named : Cut} (hqualified : t.cutAtWord? "fn".toList = some qualified)
    (hnamed : qualified.after.cutAtFirst? (· == '(') = some named) (h : qualified.after <:+ body) :
    slice body (body.offsetOf qualified.after + 2) (body.offsetOf named.after) =
      pure (named.before.drop 2) := by
  obtain ⟨rest, hafter⟩ := exists_of_cutAtWord? hqualified
  -- The parenthesis is neither character of the keyword.
  rw [hafter, cutAtFirst?_append (forall_of_all (by decide))] at hnamed
  obtain ⟨cut, hcut, rfl⟩ := Option.map_eq_some_iff.1 hnamed
  have hsize : size "fn".toList = 2 := rfl
  rw [hafter] at h
  have hadd := offsetOf_add h
  rw [hsize] at hadd
  rw [hafter, hadd]
  exact slice_of_append (whole_of_cutWhere _ hcut) ((List.suffix_append _ _).trans h)

/-- The body of a function is found from behind its parameters. -/
theorem findBodyOpen_behind {front head params : Text} (h : front ++ (head ++ params) = body)
    (hhead : ')' ∈ head) :
    Source.findBodyOpen body (body.offsetOf params) =
      pure ((params.cutAtBodyOpen? head.reverse).map fun cut => body.offsetOf cut.after) := by
  have hpassed : (head.reverse ++ front.reverse).reverse ++ params = body := by
    rw [List.reverse_append, List.reverse_reverse, List.reverse_reverse, List.append_assoc, h]
  have hclosing : ')' ∈ head.reverse := List.mem_reverse.2 hhead
  rw [findBodyOpen_eq hpassed, cutAtBodyOpen?_append hclosing (by decide) (by decide)]

/-- The cuts that lead to the end of a function's parameters lose nothing and show the parenthesis. -/
theorem head_append_behind {qualified named params : Cut}
    (hqualified : t.cutAtWord? "fn".toList = some qualified)
    (hnamed : qualified.after.cutAtFirst? (· == '(') = some named)
    (hparams : named.after.cutAtMatching? '(' ')' = some params) :
    qualified.before ++ named.before ++ params.through ++ params.behind = t ∧
      ')' ∈ qualified.before ++ named.before ++ params.through := by
  obtain ⟨rest, hparen⟩ := exists_of_cutAtMatching? hparams
  have hqualified := whole_of_cutWhere _ hqualified
  have hnamed := whole_of_cutWhere _ hnamed
  have hparams := whole_of_cutAtMatching? hparams
  constructor
  · rw [← hqualified, Cut.whole, ← hnamed, Cut.whole, ← hparams, ← params.through_append_behind]
    simp only [List.append_assoc]
  · rw [Cut.through, hparen]
    simp

theorem readMethod_eq (h : t <:+ body) :
    readMethod body (body.offsetOf t) =
      pure ((readMethod? t).map fun read => (read.1, body.offsetOf read.2)) := by
  rw [readMethod, sliceFrom_offsetOf h, pure_bind, findKeyword_eq (forall_of_all (by decide)) (by decide),
    pure_bind, readMethod?]
  cases hqualified : t.cutAtWord? "fn".toList with
  | none => rfl
  | some qualified =>
    have hfn := whole_of_cutWhere _ hqualified
    have hrest := (suffix_of_cut hfn).trans h
    dsimp only [Option.map_some, Option.bind_eq_bind, Option.bind_some]
    rw [offsetOf_cut hfn h, sliceFrom_offsetOf hrest, pure_bind, firstOffset?]
    cases hnamed : qualified.after.cutAtFirst? (· == '(') with
    | none => rfl
    | some named =>
      have hname := whole_of_cutWhere _ hnamed
      have hafter := (suffix_of_cut hname).trans hrest
      dsimp only [Option.map_some, Option.bind_some]
      rw [offsetOf_cut hname hrest, slice_name hqualified hnamed hrest, pure_bind]
      split
      · next hident =>
        rw [findMatching_eq rfl rfl rfl hafter, pure_bind]
        cases hparams : named.after.cutAtMatching? '(' ')' with
        | none => rfl
        | some params =>
          have hmatch := whole_of_cutAtMatching? hparams
          have hclosed := (suffix_of_cut hmatch).trans hafter
          have hbehind := (List.tail_suffix params.after).trans hclosed
          obtain ⟨front, hfront⟩ := List.suffix_iff_exists_append_eq.1 h
          obtain ⟨ht, hmem⟩ := head_append_behind hqualified hnamed hparams
          dsimp only [Option.map_some, Option.bind_some]
          generalize qualified.before ++ named.before ++ params.through = head at ht hmem ⊢
          rw [offsetOf_behind rfl hparams hafter, findBodyOpen_behind (ht.symm ▸ hfront) hmem, pure_bind]
          cases hresult : params.behind.cutAtBodyOpen? head.reverse with
          | none => rfl
          | some result =>
            have hwhole := whole_of_cutAtBodyOpen? hresult
            have hopen := (suffix_of_cut hwhole).trans hbehind
            dsimp only [Option.map_some, Option.bind_some]
            rw [findMatching_eq rfl rfl rfl hopen, pure_bind]
            cases hblock : result.after.cutAtMatching? '{' '}' with
            | none => rfl
            | some block =>
              have hbody := whole_of_cutAtMatching? hblock
              have hsource : head ++ result.before ++ block.through ++ block.behind = t := by
                rw [List.append_assoc, block.through_append_behind, hbody, List.append_assoc,
                  ← Cut.whole, hwhole, ht]
              have hsignature : head ++ result.before ++ result.after = t := by
                rw [List.append_assoc, ← Cut.whole, hwhole, ht]
              dsimp only [Option.map_some, Option.bind_some]
              rw [slice_inside (by decide) rfl hparams hafter, pure_bind,
                offsetOf_behind rfl hblock hopen, slice_of_append hsource h, pure_bind,
                slice_of_append hsignature h, pure_bind, slice_of_append hwhole hbehind, pure_bind,
                firstParamIsSelf_eq, pure_bind]
              rfl
      · rfl

theorem readConstant_eq (h : t <:+ body) :
    readConstant body (body.offsetOf t) =
      pure ((ClassFlattening.readConstant t).1, body.offsetOf (ClassFlattening.readConstant t).2) := by
  rw [readConstant, readReferenceBinding_eq h, pure_bind, ClassFlattening.readConstant]
  cases readReferenceBinding? t with
  | some read => rfl
  | none =>
    dsimp only [Option.map_none]
    rw [findTopLevel_one rfl h, pure_bind]
    cases hcut : t.cutAtTopLevel? (· == ';') with
    | none =>
      dsimp only [Option.map_none]
      rw [lineEnd_eq h, pure_bind]
    | some statement =>
      obtain ⟨ht, hafter⟩ := eq_of_cutAtTopLevel? hcut
      have hwhole := whole_of_cutInCode _ hcut
      have hnext : body.offsetOf statement.after + 1 = body.offsetOf statement.behind := by
        have hsuffix := (suffix_of_cut hwhole).trans h
        rw [hafter] at hsuffix ⊢
        exact offsetOf_add_one rfl hsuffix
      have hthrough : statement.through ++ statement.behind = t := by
        rw [statement.through_append_behind, hwhole]
      dsimp only [Option.map_some]
      rw [slice_of_append hwhole h, pure_bind, firstOffset?, hnext]
      cases hequals : statement.before.cutAtFirst? (· == '=') with
      | none => rfl
      | some cut =>
        obtain ⟨hstatement, -⟩ := eq_of_cutAtFirst? hequals
        dsimp only [Option.map_some]
        rw [hstatement, sliceTo_append, pure_bind, bindingName_eq, pure_bind,
          sliceFrom_append_add_one rfl, pure_bind, readProperties_eq, pure_bind,
          slice_of_append hthrough h, pure_bind]
        split
        · rfl
        · split
          · rfl
          · rfl

theorem fieldMember_eq (name type : Text) (value : Option Text) :
    fieldMember name type value = pure (ClassFlattening.fieldMember name type value) := by
  rw [fieldMember, ClassFlattening.fieldMember, readReferences_eq, pure_bind]
  split
  · rfl
  · split
    · rfl
    · split
      · rfl
      · rfl

/-- A field is read from its text. -/
theorem fieldElement_eq (h : t <:+ body) :
    ∃ element rest, fieldElement body (body.offsetOf t) = pure (element, body.offsetOf rest) ∧
      rest <:+ t ∧ ClassFlattening.readField t =
        match element.dropTrailingComment.cutAtFirst? (· == ':') with
        | none => (.nothing, t.cutLine.after)
        | some cut =>
          if '=' ∈ cut.before ∨ isIdentifier cut.before.trim = false then (.nothing, t.cutLine.after)
          else
            match cut.behind.cutAtTopLevel? (· == '=') with
            | some typed =>
              (ClassFlattening.fieldMember cut.before.trim typed.before.trim (some typed.behind.trim),
                rest)
            | none => (ClassFlattening.fieldMember cut.before.trim cut.behind.trim none, rest) := by
  rw [fieldElement, findTopLevel_one rfl h, pure_bind, ClassFlattening.readField]
  cases hcut : t.cutAtTopLevel? (· == ',') with
  | none =>
    refine ⟨t, [], ?_, List.nil_suffix, rfl⟩
    dsimp only [Option.map_none]
    rw [sliceFrom_offsetOf h, pure_bind, offsetOf_nil]
  | some cut =>
    have hwhole := whole_of_cutInCode _ hcut
    have hafter := (eq_of_cutAtTopLevel? hcut).2
    have hsuffix := (suffix_of_cut hwhole).trans h
    refine ⟨cut.before, cut.behind, ?_, behind_suffix hwhole, rfl⟩
    dsimp only [Option.map_some]
    rw [slice_of_append hwhole h, pure_bind]
    rw [hafter] at hsuffix ⊢
    rw [offsetOf_add_one rfl hsuffix]

theorem readField_eq (h : t <:+ body) :
    readField body (body.offsetOf t) =
      pure ((ClassFlattening.readField t).1, body.offsetOf (ClassFlattening.readField t).2) := by
  obtain ⟨element, rest, helement, -, hread⟩ := fieldElement_eq h
  rw [readField, helement, pure_bind, hread]
  dsimp only
  rw [dropTrailingComment_eq, pure_bind, firstOffset?]
  cases hcut : element.dropTrailingComment.cutAtFirst? (· == ':') with
  | none =>
    dsimp only [Option.map_none]
    rw [lineEnd_eq h, pure_bind]
  | some cut =>
    obtain ⟨hwhole, -⟩ := eq_of_cutAtFirst? hcut
    dsimp only [Option.map_some]
    rw [hwhole, sliceTo_append, pure_bind]
    split
    · rw [lineEnd_eq h, pure_bind]
    · have htyped := findTopLevel_one (c := '=') rfl (List.suffix_refl cut.behind)
      rw [offsetOf_self] at htyped
      rw [sliceFrom_append_add_one rfl, pure_bind, htyped, pure_bind]
      cases htype : cut.behind.cutAtTopLevel? (· == '=') with
      | none =>
        dsimp only [Option.map_none]
        rw [fieldMember_eq, pure_bind]
      | some typed =>
        obtain ⟨hbehind, hafter⟩ := eq_of_cutAtTopLevel? htype
        dsimp only [Option.map_some]
        rw [hafter, hbehind, offsetOf_append, sliceTo_append, pure_bind, sliceFrom_append_add_one rfl,
          pure_bind, fieldMember_eq, pure_bind]

theorem readMember_eq (h : t <:+ body) :
    readMember body (body.offsetOf t) =
      pure ((Member.read t).1, body.offsetOf (Member.read t).2) := by
  rw [readMember, sliceFrom_offsetOf h, pure_bind, Member.read, lineEnd_eq h]
  split
  · rfl
  · rw [stripQualifiers_eq rfl, pure_bind]
    split
    · rw [readMethod_eq h, pure_bind]
      cases readMethod? t <;> rfl
    · rw [isBlockStatement_eq (forall_of_all (by decide)), pure_bind,
        isBlockStatement_eq (forall_of_all (by decide)), pure_bind]
      split
      · rw [skipBlock_eq h, pure_bind]
      · rw [startsWithKeyword_eq (forall_of_all (by decide)),
          startsWithKeyword_eq (forall_of_all (by decide))]
        split
        · exact readConstant_eq h
        · exact readField_eq h

end Members

section Rests

variable {body t : Text}

theorem readMethod?_suffix {method : Method} {rest : Text} (h : readMethod? t = some (method, rest)) :
    rest <:+ t := by
  simp only [readMethod?, Option.bind_eq_bind, Option.bind_eq_some_iff] at h
  obtain ⟨qualified, hqualified, named, hnamed, h⟩ := h
  split at h
  · simp only [Option.bind_eq_some_iff] at h
    obtain ⟨params, hparams, result, hresult, block, hblock, h⟩ := h
    cases h
    have hbody := (behind_suffix (whole_of_cutAtMatching? hblock)).trans
      (suffix_of_cut (whole_of_cutAtBodyOpen? hresult))
    have hnames := (suffix_of_cut (whole_of_cutWhere _ hnamed)).trans
      (suffix_of_cut (whole_of_cutWhere _ hqualified))
    exact hbody.trans ((behind_suffix (whole_of_cutAtMatching? hparams)).trans hnames)
  · cases h

theorem readBound_suffix (t : Text) : (ClassFlattening.readBound t).2 <:+ t := by
  rw [ClassFlattening.readBound]
  split
  · next ended hended => exact behind_suffix (whole_of_cutInCode _ hended)
  · exact List.nil_suffix

theorem readReferenceBinding?_suffix {member : Member} {rest : Text}
    (h : readReferenceBinding? t = some (member, rest)) : rest <:+ t := by
  simp only [readReferenceBinding?, Option.bind_eq_bind, Option.bind_eq_some_iff] at h
  obtain ⟨cut, hcut, h⟩ := h
  have hbound := (readBound_suffix cut.behind).trans (behind_suffix (whole_of_cutWhere _ hcut))
  split at h
  · split at h
    · cases h
      exact hbound
    · split at h
      · cases h
        exact hbound
      · cases h
        exact hbound
  · cases h

theorem readConstant_suffix (t : Text) : (ClassFlattening.readConstant t).2 <:+ t := by
  rw [ClassFlattening.readConstant]
  split
  · next read hread => exact readReferenceBinding?_suffix hread
  · split
    · exact cutLine_suffix t
    · next statement hstatement =>
      have hbehind := behind_suffix (whole_of_cutInCode _ hstatement)
      split
      · exact hbehind
      · dsimp only
        split
        · exact hbehind
        · split
          · exact hbehind
          · exact hbehind

theorem readField_suffix (t : Text) : (ClassFlattening.readField t).2 <:+ t := by
  obtain ⟨element, rest, -, hrest, hread⟩ := fieldElement_eq (List.suffix_refl t)
  rw [hread]
  split
  · exact cutLine_suffix t
  · split
    · exact cutLine_suffix t
    · split
      · exact hrest
      · exact hrest

theorem dropBlock_suffix (t : Text) : dropBlock t <:+ t := by
  rw [dropBlock]
  split
  · next opened hopened =>
    split
    · next closed hclosed =>
      exact (behind_suffix (whole_of_cutAtMatching? hclosed)).trans
        (suffix_of_cut (whole_of_cutWhere _ hopened))
    · exact List.nil_suffix
  · exact cutLine_suffix t

/-- What is behind a member is a rest of the body. -/
theorem read_suffix (t : Text) : (Member.read t).2 <:+ t := by
  rw [Member.read]
  split
  · exact cutLine_suffix t
  · split
    · split
      · next hmethod => exact readMethod?_suffix hmethod
      · exact cutLine_suffix t
    · split
      · exact dropBlock_suffix t
      · split
        · exact readConstant_suffix t
        · exact readField_suffix t

/-- The walk over a class body comes to its end without a misstep, with the members of the body. -/
theorem readMembers_eq (h : t <:+ body) :
    Source.readMembers body (body.offsetOf t) = pure (Member.readAll t) := by
  fun_induction Member.readAll t with
  | case1 t hblank =>
    rw [Source.readMembers, skipBlanks_eq h, hblank, pure_bind, offsetOf_nil, if_pos (Nat.le_refl _)]
  | case2 t c rest htrim read ih =>
    have hsuffix : c :: rest <:+ body := by
      rw [← htrim]
      exact (List.dropWhile_suffix _).trans h
    have hread := read_suffix (c :: rest)
    have hlt := offsetOf_lt_offsetOf hread (Member.length_read_lt (List.cons_ne_nil c rest)) hsuffix
    rw [Source.readMembers, skipBlanks_eq h, htrim, pure_bind, if_neg (Nat.not_le.2 (offsetOf_lt hsuffix)),
      readMember_eq hsuffix, pure_bind]
    dsimp only
    rw [Nat.max_eq_left hlt, ih (hread.trans hsuffix), pure_bind]

end Rests

end ByOffset

end ClassFlattening
