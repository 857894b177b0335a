import ClassFlattening.Import
import ClassFlattening.Proofs.Occurrences
import ClassFlattening.Proofs.Words

/-!
# Import calls in a text

An import call ends with a parenthesis, and nothing between its start and its end can be the start of
another call whose path has no parenthesis: behind the first quote of the outer call the path would end
in front of the path of the inner one, where the outer call would have to close. So a call is found
wherever it stands, whatever is in front of it, and what the calls in front of it leave is the text from
the last of them on.

Neither a parenthesis nor a newline can be part of a binding. The binding on the line of a call is
therefore read from the text behind the call before, as long as it is on one line.
-/

namespace ClassFlattening

section BoundName

/-- A character that can be no part of a binding. -/
structure IsStopper (c : Char) : Prop where
  gap : isGap c = false
  equals : c ≠ '='
  name : (c.isAlphanum || c == '_') = false
  keyword : c ∉ "const".toList.reverse
  word : isWordChar c = false

theorem isStopper_newline : IsStopper '\n' where
  gap := by decide
  equals := by decide
  name := by decide
  keyword := by decide
  word := by decide

theorem isStopper_closing : IsStopper ')' where
  gap := by decide
  equals := by decide
  name := by decide
  keyword := by decide
  word := by decide

theorem isStopper_semicolon : IsStopper ';' where
  gap := by decide
  equals := by decide
  name := by decide
  keyword := by decide
  word := by decide

variable {c : Char}

/-- What is left of a text without what it starts with ends at a character that stays. -/
theorem dropWhile_append_cons {p : Char → Bool} (hc : p c = false) (s t : Text) :
    (s ++ c :: t).dropWhile p = s.dropWhile p ++ c :: t := by
  rw [List.dropWhile_append, List.dropWhile_cons, hc]
  split
  · next h =>
    rw [List.isEmpty_iff.1 h]
    rfl
  · rfl

theorem takeWhile_append_cons {p : Char → Bool} (hc : p c = false) (s t : Text) :
    (s ++ c :: t).takeWhile p = s.takeWhile p := by
  rw [List.takeWhile_append, List.takeWhile_cons, hc]
  split
  · next h =>
    rw [List.takeWhile_prefix p |>.eq_of_length h]
    exact List.append_nil s
  · rfl

/-- A pattern is found at the start of a text without what follows a character that is not in it. -/
theorem dropLead?_append_cons {pattern : Text} (hc : c ∉ pattern) (s t : Text) :
    (s ++ c :: t : Text).dropLead? pattern = (s.dropLead? pattern).map (· ++ c :: t) := by
  rw [Text.dropLead?, Text.dropLead?, Text.isPrefixOf_append_cons hc]
  by_cases hstarts : pattern.isPrefixOf s = true
  · obtain ⟨rest, rfl⟩ := List.isPrefixOf_iff_prefix.1 hstarts
    rw [if_pos hstarts, if_pos hstarts, List.append_assoc, List.drop_left, List.drop_left]
    rfl
  · rw [if_neg hstarts, if_neg hstarts]
    rfl

theorem head?_any_append_cons {p : Char → Bool} (hc : p c = false) (s t : Text) :
    (s ++ c :: t).head?.any p = s.head?.any p := by
  cases s with
  | nil => exact hc
  | cons d s => rfl

/-- A binding does not reach over a character that can be no part of it. -/
theorem boundName?_append_cons (hc : IsStopper c) (s t : Text) :
    boundName? (s ++ c :: t) = boundName? s := by
  have hequals : c ∉ ['='] := by
    rw [List.mem_singleton]
    exact hc.equals
  rw [boundName?, boundName?, dropWhile_append_cons hc.gap, dropLead?_append_cons hequals]
  cases Text.dropLead? (s.dropWhile isGap) ['='] with
  | none => rfl
  | some bound =>
    dsimp only [Option.map_some, Option.bind_eq_bind, Option.bind_some]
    rw [dropWhile_append_cons hc.gap, takeWhile_append_cons hc.name]
    generalize bound.dropWhile isGap = named
    have hle := (List.takeWhile_sublist (l := named) fun c => c.isAlphanum || c == '_').length_le
    rw [List.drop_append_of_le_length hle, dropWhile_append_cons hc.gap, dropLead?_append_cons hc.keyword,
      head?_any_append_cons hc.gap]
    generalize named.drop _ = gap
    cases Text.dropLead? (gap.dropWhile isGap) "const".toList.reverse with
    | none => rfl
    | some start =>
      dsimp only [Option.map_some, Option.bind_some]
      rw [head?_any_append_cons hc.word]

/-- What a text binds does not depend on what is in front of it, if that ends with a character that can be
no part of a binding. -/
theorem boundName?_behind {front : Text} (hfront : ∀ c ∈ front.getLast?, IsStopper c) (t : Text) :
    boundName? (front ++ t).reverse = boundName? t.reverse := by
  rw [List.reverse_append]
  rw [← List.head?_reverse] at hfront
  cases hrev : front.reverse with
  | nil => rw [List.append_nil]
  | cons c rest =>
    rw [hrev] at hfront
    rw [boundName?_append_cons (hfront c rfl)]

/-- Whether a text may be the name of an alias: an ASCII identifier. -/
def isAliasName : Text → Bool
  | [] => false
  | c :: rest => !c.isDigit && (c :: rest).all fun d => d.isAlphanum || d == '_'

/-- What binds a name to the import call behind it. -/
def importBinding (name : Text) : Text := "const ".toList ++ (name ++ " = ".toList)

variable {name : Text}

/-- An alias consists of letters, digits and underscores, and does not start with a digit. -/
theorem chars_of_isAliasName (h : isAliasName name = true) :
    (∀ d ∈ name, (d.isAlphanum || d == '_') = true) ∧ ∃ c rest, name = c :: rest ∧ c.isDigit = false := by
  cases name with
  | nil => cases h
  | cons c rest =>
    rw [isAliasName, Bool.and_eq_true, List.all_eq_true, Bool.not_eq_true'] at h
    exact ⟨h.2, c, rest, rfl, h.1⟩

/-- A letter, a digit or an underscore is no blank. -/
theorem isBlank_of_isAlphanum {d : Char} (h : (d.isAlphanum || d == '_') = true) : isBlank d = false :=
  isBlank_eq_false (p := fun d => d.isAlphanum || d == '_') h (by decide +kernel)

/-- A binding binds its name. -/
theorem boundName?_importBinding (h : isAliasName name = true) :
    boundName? (importBinding name).reverse = some name := by
  obtain ⟨hchars, c, rest, hname, hdigit⟩ := chars_of_isAliasName h
  have hreverse : (importBinding name).reverse =
      ' ' :: '=' :: ' ' :: (name.reverse ++ ' ' :: "const".toList.reverse) := by
    have hconst : "const ".toList = "const".toList ++ [' '] := by decide
    have hequals : " = ".toList.reverse = [' ', '=', ' '] := by decide
    unfold importBinding
    rw [List.reverse_append, List.reverse_append, hequals, hconst, List.reverse_append,
      List.append_assoc]
    rfl
  have hnamed : List.dropWhile isGap (' ' :: (name.reverse ++ ' ' :: "const".toList.reverse)) =
      name.reverse ++ ' ' :: "const".toList.reverse := by
    rw [List.dropWhile_cons_of_pos (by decide)]
    obtain ⟨d, more, hmore⟩ : ∃ d more, name.reverse = d :: more :=
      List.exists_cons_of_ne_nil (by rw [hname]; simp)
    have hd : d ∈ name := List.mem_reverse.1 (hmore ▸ List.mem_cons_self)
    rw [hmore]
    exact List.dropWhile_cons_of_neg (by simp [isGap, isBlank_of_isAlphanum (hchars d hd)])
  have htaken : List.takeWhile (fun d => d.isAlphanum || d == '_')
      (name.reverse ++ ' ' :: "const".toList.reverse) = name.reverse := by
    rw [List.takeWhile_append_of_pos fun d hd => hchars d (List.mem_reverse.1 hd),
      List.takeWhile_cons_of_neg (by decide), List.append_nil]
  have hspace : List.dropWhile isGap (' ' :: '=' :: ' ' ::
      (name.reverse ++ ' ' :: "const".toList.reverse)) =
        '=' :: ' ' :: (name.reverse ++ ' ' :: "const".toList.reverse) := by
    rw [List.dropWhile_cons_of_pos (by decide), List.dropWhile_cons_of_neg (by decide)]
  have hconst : List.dropWhile isGap (' ' :: "const".toList.reverse) =
      "const".toList.reverse ++ [] := by decide
  rw [boundName?, hreverse, hspace, Text.dropLead?_cons]
  simp only [Option.bind_eq_bind, Option.bind_some, hnamed, htaken, List.drop_left, hconst]
  rw [Text.dropLead?_append]
  simp only [Option.bind_some, List.reverse_reverse, hname, hdigit]
  rfl

end BoundName

/-- What is left of a text at a part of it is a part of the text. -/
theorem suffix_of_dropLead? {t pattern rest : Text} (h : t.dropLead? pattern = some rest) : rest <:+ t :=
  ⟨pattern, (Text.dropLead?_eq_some_iff.1 h).symm⟩

/-- An import call ends with a parenthesis. -/
theorem suffix_of_readImport? {t path rest : Text} (h : readImport? t = some (path, rest)) :
    ')' :: rest <:+ t := by
  simp only [readImport?, Option.bind_eq_bind, Option.bind_eq_some_iff] at h
  obtain ⟨opened, hopened, quoted, hquoted, cut, hcut, behind, hbehind, h⟩ := h
  cases h
  have hclosing := Text.dropLead?_eq_some_iff.1 hbehind
  have hpath : ')' :: rest <:+ cut.behind := by
    rw [← List.singleton_append, ← hclosing]
    exact List.dropWhile_suffix _
  have hquoted := (suffix_of_dropLead? hquoted).trans (List.dropWhile_suffix _)
  exact ((hpath.trans (Text.behind_suffix (Text.whole_of_cutWhere _ hcut))).trans hquoted).trans
    (suffix_of_dropLead? hopened)

/-- What is left of a text without the blanks in front of it starts with a sign exactly if the sign stands
behind blanks. -/
theorem Text.trimStart_eq_cons_iff {c : Char} (hc : isBlank c = false) {t rest : Text} :
    t.trimStart = c :: rest ↔ ∃ gap : Text, gap.allBlank = true ∧ t = gap ++ c :: rest := by
  constructor
  · intro h
    refine ⟨t.takeWhile isBlank, List.all_takeWhile, ?_⟩
    rw [← h]
    exact (List.takeWhile_append_dropWhile (p := isBlank)).symm
  · rintro ⟨gap, hgap, rfl⟩
    rw [Text.trimStart_append hgap]
    exact List.dropWhile_cons_of_neg (by simp [hc])

/-- A text is a call that imports a path: the path stands in quotes, perhaps between blanks. -/
def IsImportCall (path call : Text) : Prop :=
  '"' ∉ path ∧ ∃ gap gap' : Text, gap.allBlank = true ∧ gap'.allBlank = true ∧
    call = "@import(".toList ++ (gap ++ '"' :: (path ++ '"' :: (gap' ++ [')'])))

/-- A call is read exactly where one stands. -/
theorem readImport?_eq_some_iff {t path rest : Text} :
    readImport? t = some (path, rest) ↔ ∃ call, IsImportCall path call ∧ t = call ++ rest := by
  simp only [readImport?, Option.bind_eq_bind, Option.bind_eq_some_iff, Text.dropLead?_eq_some_iff,
    List.singleton_append, Option.pure_def, Option.some.injEq, Prod.mk.injEq]
  constructor
  · rintro ⟨opened, rfl, quoted, hopened, cut, hcut, behind, hbehind, rfl, rfl⟩
    obtain ⟨gap, hgap, rfl⟩ := (Text.trimStart_eq_cons_iff (by decide)).1 hopened
    obtain ⟨gap', hgap', hclosed⟩ := (Text.trimStart_eq_cons_iff (by decide)).1 hbehind
    obtain ⟨hquoted, -⟩ := Text.eq_of_cutAtFirst? hcut
    have hpath : '"' ∉ cut.before := fun hmem => by
      have hno := Text.forall_of_cutAtFirst? hcut _ hmem
      rw [beq_self_eq_true] at hno
      cases hno
    refine ⟨_, ⟨hpath, gap, gap', hgap, hgap', rfl⟩, ?_⟩
    rw [hquoted, hclosed]
    simp only [List.append_assoc, List.cons_append, List.nil_append]
  · rintro ⟨call, ⟨hpath, gap, gap', hgap, hgap', rfl⟩, rfl⟩
    have hcut : Text.cutAtFirst? (· == '"') (path ++ '"' :: (gap' ++ ')' :: rest)) =
        some ⟨path, '"' :: (gap' ++ ')' :: rest)⟩ :=
      Text.cutAtFirst?_self (fun c hc => beq_eq_false_iff_ne.2 fun heq => hpath (heq ▸ hc)) (beq_self_eq_true '"')
    refine ⟨gap ++ '"' :: (path ++ '"' :: (gap' ++ ')' :: rest)), ?_, path ++ '"' :: (gap' ++ ')' :: rest),
      (Text.trimStart_eq_cons_iff (by decide)).2 ⟨gap, hgap, rfl⟩, _, hcut, rest,
      (Text.trimStart_eq_cons_iff (by decide)).2 ⟨gap', hgap', rfl⟩, rfl, rfl⟩
    simp only [List.append_assoc, List.cons_append, List.nil_append]

/-- A call that imports a path, without blanks. -/
def importCall (path : Text) : Text := "@import(".toList ++ '"' :: (path ++ ['"', ')'])

/-- A path without a quote is read from its call. -/
theorem readImport?_importCall {path : Text} (hquote : '"' ∉ path) (back : Text) :
    readImport? (importCall path ++ back) = some (path, back) :=
  readImport?_eq_some_iff.2 ⟨_, ⟨hquote, [], [], rfl, rfl, rfl⟩, rfl⟩

/-- A pattern is found at the start of a text without what follows a character that the pattern can only
start with. -/
theorem dropLead?_cons_append_cons {pattern : Text} {c : Char} (hc : c ∉ pattern.tail) (d : Char)
    (s t : Text) : Text.dropLead? (d :: s ++ c :: t) pattern =
      (Text.dropLead? (d :: s) pattern).map (· ++ c :: t) := by
  cases pattern with
  | nil => rfl
  | cons e pattern =>
    have hrest := dropLead?_append_cons hc s t
    simp only [Text.dropLead?, List.cons_append, List.isPrefixOf_cons_cons, List.tail_cons,
      List.length_cons, List.drop_succ_cons] at hrest ⊢
    cases e == d with
    | false => rfl
    | true => exact hrest

/-- A call starts with an at sign, and no other character of its start is one. -/
theorem importStart_eq : "@import(".toList = '@' :: "import(".toList := by decide

/-- A path that runs into an import call ends in front of the path of that call, and what follows there is
no parenthesis. -/
theorem dropLead?_closing_of_path {path : Text} (hclosing : ')' ∉ path) (back : Text) :
    Text.dropLead? (Text.trimStart (path ++ '"' :: back)) [')'] = none := by
  have hquote : '"' ∉ [')'] := by decide
  have htrim : Text.trimStart (path ++ '"' :: back) = path.trimStart ++ '"' :: back :=
    dropWhile_append_cons (by decide) path back
  rw [htrim, dropLead?_append_cons hquote, Option.map_eq_none_iff, Option.eq_none_iff_forall_ne_some]
  intro rest hrest
  have hstarts := Text.dropLead?_eq_some_iff.1 hrest
  apply hclosing
  apply (List.dropWhile_suffix isBlank).subset
  rw [← Text.trimStart, hstarts]
  exact List.mem_cons_self

section Behind

variable {call path back : Text} (hread : readImport? call = some (path, back)) (hclosing : ')' ∉ path)

include hread in
/-- An import call starts with an at sign. -/
theorem exists_inner_of_readImport? : ∃ inner, call = '@' :: inner := by
  obtain ⟨_, ⟨-, gap, gap', -, -, rfl⟩, rfl⟩ := readImport?_eq_some_iff.1 hread
  rw [importStart_eq]
  exact ⟨_, rfl⟩

include hread hclosing

/-- Nothing that starts in front of an import call is a call that reaches into it, unless its path has a
parenthesis: what is read there is what is read without it. -/
theorem readImport?_append {pre : Text} (hne : pre ≠ []) :
    readImport? (pre ++ call) = (readImport? pre).map fun (imported, rest) => (imported, rest ++ call) := by
  obtain ⟨d, s, rfl⟩ := List.exists_cons_of_ne_nil hne
  obtain ⟨inner, hinner⟩ := exists_inner_of_readImport? hread
  have hat : '@' ∉ "@import(".toList.tail := by decide
  have hquote : '@' ∉ ['"'] := by decide
  have hparenthesis : '@' ∉ [')'] := by decide
  have htrim (t : Text) : Text.trimStart (t ++ '@' :: inner) = t.trimStart ++ '@' :: inner :=
    dropWhile_append_cons (by decide) t inner
  rw [hinner, readImport?, readImport?, dropLead?_cons_append_cons hat]
  cases Text.dropLead? (d :: s) "@import(".toList with
  | none => rfl
  | some opened =>
    simp only [Option.map_some, Option.bind_eq_bind, Option.bind_some, htrim]
    rw [dropLead?_append_cons hquote]
    cases Text.dropLead? opened.trimStart ['"'] with
    | none => rfl
    | some quoted =>
      simp only [Option.map_some, Option.bind_some]
      cases hcut : Text.cutAtFirst? (· == '"') quoted with
      | some cut =>
        have hbehind : Text.trimStart (cut.after ++ '@' :: inner).tail =
            cut.behind.trimStart ++ '@' :: inner := by
          rw [List.tail_append_of_ne_nil (Text.after_ne_nil_of_cutWhere _ hcut), htrim, Cut.behind]
        rw [Text.cutAtFirst?_append_of_some hcut]
        simp only [Option.bind_some]
        rw [Cut.behind, hbehind, dropLead?_append_cons hparenthesis]
        cases Text.dropLead? cut.behind.trimStart [')'] with
        | none => rfl
        | some rest => rfl
      | none =>
        -- The path runs into the inner call, up to the quote in front of the inner path.
        obtain ⟨_, ⟨-, gap, gap', hgap, -, rfl⟩, hcall⟩ := readImport?_eq_some_iff.1 hread
        have hpath : ∀ c ∈ quoted ++ ("@import(".toList ++ gap), (c == '"') = false := by
          refine List.forall_mem_append.2 ⟨Text.forall_of_cutAtFirst?_eq_none hcut,
            List.forall_mem_append.2 ⟨Text.forall_of_all (by decide), fun c hc => ?_⟩⟩
          exact beq_eq_false_iff_ne.2 fun heq => by
            have hblank := List.all_eq_true.1 hgap c hc
            rw [heq] at hblank
            cases hblank
        have hrun : quoted ++ '@' :: inner = quoted ++ ("@import(".toList ++ gap) ++
            '"' :: (path ++ '"' :: (gap' ++ ')' :: back)) := by
          rw [← hinner, hcall]
          simp only [List.append_assoc, List.cons_append, List.nil_append]
        rw [hrun, Text.cutAtFirst?_self hpath (beq_self_eq_true '"')]
        simp only [Option.bind_some, Cut.behind, List.tail_cons]
        rw [dropLead?_closing_of_path hclosing]
        rfl

end Behind

/-- One step of the search for an import call. -/
theorem cutAtImport?_cons (c : Char) (rest : Text) :
    cutAtImport? (c :: rest) =
      if c == '@' && (readImport? (c :: rest)).isSome then some ⟨[], c :: rest⟩
      else (cutAtImport? rest).map fun cut => ⟨c :: cut.before, cut.after⟩ := by
  rw [cutAtImport?, Text.cutWhere_cons]
  split
  · next hverdict =>
    split at hverdict
    · next hcall => rw [if_pos hcall]
    · cases hverdict
  · next hverdict =>
    split at hverdict
    · cases hverdict
    · cases hverdict
  · next hverdict =>
    split at hverdict
    · cases hverdict
    · next hcall =>
      rw [if_neg hcall]
      rfl

/-- The search for an import call stops at one. -/
theorem exists_of_cutAtImport? {t : Text} {cut : Cut} (h : cutAtImport? t = some cut) :
    ∃ path rest, readImport? cut.after = some (path, rest) := by
  obtain ⟨_, c, rest, hafter, hstop⟩ := Text.exists_stop_of_cutWhere h
  split at hstop
  · next hcall =>
    rw [Bool.and_eq_true, Option.isSome_iff_exists] at hcall
    obtain ⟨-, ⟨path, behind⟩, hread⟩ := hcall
    rw [hafter]
    exact ⟨path, behind, hread⟩
  · cases hstop

/-- A text in which no import call is found has none. -/
theorem importCalls_of_none {t : Text} (hcut : cutAtImport? t = none) : importCalls t = [] := by
  rw [importCalls]
  split
  · rfl
  · next cut hsome =>
    rw [hcut] at hsome
    cases hsome

/-- The import calls of a text are the one that is found first and those behind it. -/
theorem importCalls_of_cut {t path rest : Text} {cut : Cut} (hcut : cutAtImport? t = some cut)
    (hread : readImport? cut.after = some (path, rest)) :
    importCalls t = ⟨cut.before, path⟩ :: importCalls rest := by
  rw [importCalls]
  split
  · next hnone =>
    rw [hcut] at hnone
    cases hnone
  · next found hfound =>
    cases hcut.symm.trans hfound
    split
    · next hnone =>
      rw [hread] at hnone
      cases hnone
    · next imported behind hsome =>
      cases hread.symm.trans hsome
      rfl

section Append

variable {call path back : Text} (hread : readImport? call = some (path, back)) (hclosing : ')' ∉ path)

include hread hclosing

/-- The first call of a text is found where another call follows, and that one is found where the text has
none. -/
theorem cutAtImport?_append (pre : Text) :
    cutAtImport? (pre ++ call) =
      match cutAtImport? pre with
      | some cut => some ⟨cut.before, cut.after ++ call⟩
      | none => some ⟨pre, call⟩ := by
  induction pre with
  | nil =>
    obtain ⟨inner, rfl⟩ := exists_inner_of_readImport? hread
    rw [List.nil_append, cutAtImport?_cons, hread]
    rfl
  | cons c pre ih =>
    have hfront := readImport?_append hread hclosing (List.cons_ne_nil c pre)
    rw [List.cons_append] at hfront ⊢
    rw [cutAtImport?_cons, cutAtImport?_cons, hfront, Option.isSome_map, ih]
    split
    · rfl
    · cases cutAtImport? pre <;> rfl

/-- The import calls of a text with a call in it are those of the text in front of the call, the call, and
those of the text behind it. The call leads on from the last of those in front of it. -/
theorem importCalls_append (pre : Text) :
    ∃ passed lead, pre = passed ++ lead ∧ (∀ c ∈ passed.getLast?, c = ')') ∧
      importCalls (pre ++ call) = importCalls pre ++ ⟨lead, path⟩ :: importCalls back := by
  induction hlength : pre.length using Nat.strongRecOn generalizing pre with
  | ind n ih =>
    have hcut' := cutAtImport?_append hread hclosing pre
    cases hcut : cutAtImport? pre with
    | none =>
      rw [hcut] at hcut'
      refine ⟨[], pre, rfl, fun c hc => (nomatch hc), ?_⟩
      rw [importCalls_of_none hcut, importCalls_of_cut hcut' hread]
      rfl
    | some cut =>
      rw [hcut] at hcut'
      obtain ⟨imported, rest, hfront⟩ := exists_of_cutAtImport? hcut
      have hfront' := readImport?_append hread hclosing (Text.after_ne_nil_of_cutWhere _ hcut)
      rw [hfront, Option.map_some] at hfront'
      have hlt := length_lt_of_readImport? hfront
      have hle := Text.length_after_le (Text.whole_of_cutWhere _ hcut)
      obtain ⟨passed, lead, hrest, hpassed, hcalls⟩ := ih rest.length (by omega) rest rfl
      obtain ⟨text, htext⟩ := suffix_of_readImport? hfront
      refine ⟨cut.before ++ (text ++ ')' :: passed), lead, ?_, ?_, ?_⟩
      · rw [← Text.whole_of_cutWhere _ hcut, Cut.whole, ← htext, hrest]
        simp only [List.append_assoc, List.cons_append]
      · intro c hc
        rw [← List.append_assoc, List.getLast?_append_cons] at hc
        cases passed with
        | nil => exact (Option.some.inj hc).symm
        | cons d passed => exact hpassed c (by rwa [List.getLast?_cons_cons] at hc)
      · rw [importCalls_of_cut hcut hfront, importCalls_of_cut hcut' hfront', hcalls]
        rfl

end Append

/-- The name that an import call binds; calls of reserved modules bind none. -/
def ImportCall.alias? (call : ImportCall) : Option Text :=
  if call.path ∈ reservedModules then none else boundName? call.lead.reverse

/-- A call that leads on from a line on which a binding starts binds the name of the binding. -/
theorem ImportCall.alias?_of_importBinding {front lead path name : Text}
    (hfront : ∀ c ∈ front.getLast?, c = '\n') (hname : isAliasName name = true)
    (hpath : path ∉ reservedModules) (hlead : lead = front ++ importBinding name) :
    ImportCall.alias? ⟨lead, path⟩ = some name := by
  have hstops : ∀ c ∈ front.getLast?, IsStopper c := by
    intro c hc
    rw [hfront c hc]
    exact isStopper_newline
  rw [alias?, if_neg hpath, hlead, boundName?_behind hstops, boundName?_importBinding hname]

/-- A call that is found behind a character at which no binding and no call goes on is found without the
character, and binds the same name. -/
theorem exists_alias?_of_mem_importCalls_cons {c : Char} (hc : IsStopper c) (hat : c ≠ '@') {t : Text}
    {call : ImportCall} (h : call ∈ importCalls (c :: t)) :
    ∃ other ∈ importCalls t, other.alias? = call.alias? := by
  have hcons := cutAtImport?_cons c t
  rw [beq_eq_false_iff_ne.2 hat, Bool.false_and, if_neg Bool.false_ne_true] at hcons
  cases hcut : cutAtImport? t with
  | none =>
    rw [hcut] at hcons
    rw [importCalls_of_none hcons] at h
    cases h
  | some cut =>
    rw [hcut] at hcons
    obtain ⟨path, rest, hread⟩ := exists_of_cutAtImport? hcut
    rw [importCalls_of_cut hcut hread]
    rw [importCalls_of_cut hcons hread] at h
    rcases List.mem_cons.1 h with rfl | hrest
    · refine ⟨_, List.mem_cons_self, ?_⟩
      have hstops : ∀ d ∈ [c].getLast?, IsStopper d := by
        intro d hd
        cases hd
        exact hc
      have hbound := boundName?_behind hstops cut.before
      rw [ImportCall.alias?, ImportCall.alias?]
      dsimp only
      rw [← hbound]
      rfl
    · exact ⟨call, List.mem_cons_of_mem _ hrest, rfl⟩

/-- What the aliases of a file are after one more import call. -/
def bindCall (file : Text) (aliases : Aliases) (call : ImportCall) : Aliases :=
  match call.alias? with
  | some name => aliases.bind name (SourcePath.resolve file call.path)
  | none => aliases

/-- The aliases of a file are bound call by call. -/
theorem importAliases_eq (file source : Text) :
    importAliases file source = (importCalls source).foldl (bindCall file) [] := by
  unfold importAliases
  congr 1
  funext aliases call
  rw [bindCall, ImportCall.alias?]
  split
  · rfl
  · rfl

/-- Calls that do not bind a name leave its path alone. -/
theorem path?_foldl_bindCall (file name : Text) {calls : List ImportCall}
    (h : ∀ call ∈ calls, call.alias? ≠ some name) (aliases : Aliases) :
    (calls.foldl (bindCall file) aliases).path? name = aliases.path? name := by
  induction calls generalizing aliases with
  | nil => rfl
  | cons call calls ih =>
    obtain ⟨hcall, hrest⟩ := List.forall_mem_cons.1 h
    rw [List.foldl_cons, ih hrest, bindCall]
    split
    · next other hother =>
      have hne : name ≠ other := fun heq => hcall (heq ▸ hother)
      rw [Aliases.path?_bind, if_neg hne]
    · rfl

/-- The last call that binds a name decides where its alias leads. -/
theorem path?_importAliases {file source name : Text} {earlier later : List ImportCall}
    {call : ImportCall} (hcalls : importCalls source = earlier ++ call :: later)
    (hcall : call.alias? = some name) (hlater : ∀ other ∈ later, other.alias? ≠ some name) :
    (importAliases file source).path? name = some (SourcePath.resolve file call.path) := by
  rw [importAliases_eq, hcalls, List.foldl_append, List.foldl_cons, path?_foldl_bindCall file name hlater,
    bindCall, hcall]
  dsimp only
  rw [Aliases.path?_bind, if_pos rfl]

end ClassFlattening
