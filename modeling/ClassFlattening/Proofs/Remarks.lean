import ClassFlattening.Proofs.PassedText

/-!
# Comments in a list

A comment is passed by every search of the code that passes its newline, and behind it the search is where it
was. So a comment may be put at any place in code and no bracket or separator is found elsewhere. But it stays in
the text that was searched: in a list that is taken apart at its separators it is the start of the piece
behind it, and that piece starts with its slashes.
-/

namespace ClassFlattening

namespace Text

/-- A comment with the end of its line. -/
def remark (note : Text) : Text := "//".toList ++ (note ++ ['\n'])

/-- A text that ends in code, and not with what could start a line that is no code. -/
def EndsInCode (t : Text) : Prop := Mode.code.past t = .code ∧ ∀ c ∈ t.getLast?, isLineStart c = false

section Past

variable {σ : Type} {verdict : σ → Char → Verdict σ} {s t note : Text} {mode : Mode} {c : Char}
  {state next : Mode × σ}

/-- The mode behind two texts that are apart. -/
theorem past_append (h : Apart s t) : mode.past (s ++ t) = (mode.past s).past t := by
  induction s generalizing mode with
  | nil => rfl
  | cons c s ih => rw [List.cons_append, Mode.past, Mode.past, step_append mode h, ih h.tail]

/-- A walk leads to the mode behind the text. -/
theorem fst_of_walk (h : walk verdict state t = some next) : next.1 = state.1.past t := by
  induction t generalizing state with
  | nil =>
    cases h
    rfl
  | cons c t ih =>
    obtain ⟨between, hverdict, hrest⟩ := walk_cons_eq_some_iff.1 h
    rw [ih hrest, Mode.past, (codeVerdict_eq_pass_iff.1 hverdict).1]

theorem EndsInCode.apart (h : s.EndsInCode) (t : Text) : Apart s t := apart_of_last h.2

theorem endsInCode_nil : EndsInCode [] := ⟨rfl, by simp⟩

/-- Two texts one after the other end in code. -/
theorem EndsInCode.append (hs : s.EndsInCode) (ht : t.EndsInCode) : (s ++ t).EndsInCode := by
  refine ⟨by rw [past_append (hs.apart t), hs.1, ht.1], ?_⟩
  intro d hd
  by_cases hnil : t = []
  · rw [hnil, List.append_nil] at hd
    exact hs.2 d hd
  · rw [List.getLast?_append_of_ne_nil _ hnil] at hd
    exact ht.2 d hd

/-- A character of the code ends in code. -/
theorem endsInCode_singleton (hc : isCodeChar c = true) : EndsInCode [c] := by
  refine ⟨?_, ?_⟩
  · rw [Mode.past, step_of_isCodeChar hc]
    rfl
  · intro d hd
    cases hd
    rw [isCodeChar, Bool.and_eq_true, Bool.not_eq_true', Bool.not_eq_true'] at hc
    exact hc.2

/-- A text of characters of the code ends in code. -/
theorem endsInCode_of_all (h : ∀ c ∈ t, isCodeChar c = true) : t.EndsInCode := by
  induction t with
  | nil => exact endsInCode_nil
  | cons c t ih =>
    exact (endsInCode_singleton (h c List.mem_cons_self)).append (ih fun d hd => h d (List.mem_cons_of_mem c hd))

/-- A blank is a character of the code. -/
theorem isCodeChar_of_isBlank (h : isBlank c = true) : isCodeChar c = true :=
  (isPlain_iff.1 (isPlain_of_isBlank h rfl : isPlain never c = true)).1

/-- Blanks are characters of the code. -/
theorem isCodeChar_of_allBlank (h : t.allBlank = true) : ∀ c ∈ t, isCodeChar c = true :=
  fun c hc => isCodeChar_of_isBlank (List.all_eq_true.1 h c hc)

/-- Blanks end in code. -/
theorem endsInCode_of_allBlank (h : t.allBlank = true) : t.EndsInCode :=
  endsInCode_of_all (isCodeChar_of_allBlank h)

/-- A character of the code behind a text that ends there ends in code. -/
theorem endsInCode_concat (h : Mode.code.past s = .code) (hc : isCodeChar c = true) : (s ++ [c]).EndsInCode := by
  refine ⟨?_, ?_⟩
  · rw [past_append (apart_cons hc), h]
    exact (endsInCode_singleton hc).1
  · rw [List.getLast?_concat]
    exact (endsInCode_singleton hc).2

/-- A passable text and a character of the code behind it end in code. -/
theorem Passable.endsInCode_concat {ends : Char → Bool} (h : s.Passable ends) (hc : isCodeChar c = true) :
    (s ++ [c]).EndsInCode :=
  Text.endsInCode_concat (fst_of_walk h).symm hc

end Past

section Insertion

variable {σ : Type} {verdict : σ → Char → Verdict σ} {s t note : Text} {state : Mode × σ} {after : σ}

/-- A comment is apart from what follows its line. -/
theorem apart_remark (note t : Text) : Apart (remark note) t := by
  apply apart_of_last
  rw [remark, ← List.append_assoc, List.getLast?_concat]
  intro c hc
  cases hc
  decide

/-- A search that passes newlines passes a comment in code. -/
theorem walk_remark (hnote : '\n' ∉ note) (hline : verdict after '\n' = .pass after) :
    walk verdict (.code, after) (remark note) = some (.code, after) := by
  have hrest : walk verdict (.line, after) (note ++ ['\n']) = some (.code, after) := by
    induction note with
    | nil =>
      refine walk_cons_eq_some_iff.2 ⟨(.code, after), ?_, rfl⟩
      exact codeVerdict_eq_pass_iff.2 ⟨rfl, fun _ => hline, fun h => by cases h⟩
    | cons c note ih =>
      rw [List.mem_cons, not_or] at hnote
      have hstep (rest : Text) : Mode.line.step c rest = (false, .line) := by
        rw [Mode.step, Mode.read, if_neg (Ne.symm hnote.1)]
      refine walk_cons_eq_some_iff.2 ⟨(.line, after), ?_, ih hnote.2⟩
      refine codeVerdict_eq_pass_iff.2 ⟨?_, fun h => ?_, fun _ => rfl⟩
      · exact congrArg Prod.snd (hstep _)
      · exact absurd ((congrArg Prod.fst (hstep _)).symm.trans h) Bool.false_ne_true
  exact hrest

/-- A search finds behind a comment what it finds without it. -/
theorem cutWhere_insert_remark (hnote : '\n' ∉ note) (hs : s.EndsInCode)
    (hwalk : walk verdict state s = some (.code, after)) (hline : verdict after '\n' = .pass after) (t : Text) :
    cutWhere (codeVerdict verdict) state (s ++ (remark note ++ t)) =
      (cutWhere (codeVerdict verdict) (.code, after) t).map fun cut =>
        ⟨s ++ (remark note ++ cut.before), cut.after⟩ := by
  rw [cutWhere_append_of_walk (hs.apart _) hwalk,
    cutWhere_append_of_walk (apart_remark note t) (walk_remark hnote hline), Option.map_map]
  rfl

/-- The search for a closing bracket passes newlines. -/
theorem matchingVerdict_newline {opening closing : Char} (hopening : opening ≠ '\n') (hclosing : closing ≠ '\n')
    (depth : Nat) : matchingVerdict opening closing depth '\n' = .pass depth := by
  rw [matchingVerdict, if_neg hopening.symm, if_neg hclosing.symm]

/-- A search outside all brackets that is not for newlines passes them. -/
theorem topLevelVerdict_newline {ends : Char → Bool} {depth : Nat} (hends : depth = 0 → ends '\n' = false) :
    topLevelVerdict ends depth '\n' = .pass depth := by
  have hstop : (decide (depth = 0) && ends '\n') = false := by
    cases depth with
    | zero => rw [hends rfl, Bool.and_false]
    | succ depth => rfl
  rw [topLevelVerdict, hstop]
  rfl

/-- A comment in the code between two brackets does not keep one from closing the other. -/
theorem cutAtMatching?_insert_remark {opening closing : Char} (hopening : isCodeChar opening = true)
    (hclosing : isCodeChar closing = true) (hline : opening ≠ '\n' ∧ closing ≠ '\n') (hnote : '\n' ∉ note)
    (hs : s.EndsInCode) {rest : Text}
    (h : cutAtMatching? (opening :: (s ++ t) ++ closing :: rest) opening closing =
      some ⟨opening :: (s ++ t), closing :: rest⟩) :
    cutAtMatching? (opening :: (s ++ (remark note ++ t)) ++ closing :: rest) opening closing =
      some ⟨opening :: (s ++ (remark note ++ t)), closing :: rest⟩ := by
  have hplace : EndsInCode (opening :: s) := (endsInCode_singleton hopening).append hs
  have hhead (u : Text) : (opening :: u ++ closing :: rest).head? = some opening := rfl
  rw [cutAtMatching?, if_pos (hhead _), cutInCode_eq_cutWhere] at h ⊢
  obtain ⟨next, d, more, hwalk, -, -⟩ := exists_walk_of_cutWhere h (apart_cons hclosing)
  rw [← List.cons_append, walk_append (hplace.apart t)] at hwalk
  obtain ⟨⟨mode, depth⟩, hfront, -⟩ := Option.bind_eq_some_iff.1 hwalk
  have hmode := (fst_of_walk hfront).trans hplace.1
  dsimp only at hmode
  subst hmode
  rw [← List.cons_append, List.append_assoc, cutWhere_append_of_walk (hplace.apart _) hfront] at h
  obtain ⟨⟨before, after⟩, hcut, heq⟩ := Option.map_eq_some_iff.1 h
  obtain ⟨hbefore, rfl⟩ := Cut.mk.inj heq
  obtain rfl := List.append_cancel_left hbefore
  have hinsert := cutWhere_insert_remark hnote hplace hfront (matchingVerdict_newline hline.1 hline.2 depth)
    (before ++ closing :: rest)
  rw [hcut, Option.map_some] at hinsert
  simpa only [List.cons_append, List.append_assoc] using hinsert

/-- A comment in the code of a passable text leaves it passable, unless the search is for newlines outside all
brackets. -/
theorem Passable.insert_remark {ends : Char → Bool} (h : (s ++ t).Passable ends) (hs : s.EndsInCode)
    (hnote : '\n' ∉ note) (hline : s.Passable ends → ends '\n' = false) :
    (s ++ (remark note ++ t)).Passable ends := by
  rw [Passable, walk_append (hs.apart t)] at h
  obtain ⟨⟨mode, depth⟩, hfront, hrest⟩ := Option.bind_eq_some_iff.1 h
  have hmode := (fst_of_walk hfront).trans hs.1
  dsimp only at hmode
  subst hmode
  have hpass : topLevelVerdict ends depth '\n' = .pass depth := by
    apply topLevelVerdict_newline
    rintro rfl
    exact hline hfront
  rw [Passable, walk_append (hs.apart _), hfront, Option.bind_some, walk_append (apart_remark note t),
    walk_remark hnote hpass]
  exact hrest

end Insertion

/-- The elements of a list, each with its separator behind it. -/
def ahead (elements : List Text) : Text := elements.flatMap fun element => element ++ [',']

/-- A separator and the rest of a list, or nothing. -/
def onwards : Option Text → Text
  | none => []
  | some t => ',' :: t

section Lists

variable {elements : List Text} {element blanks t note : Text}

/-- What stands in front of an element of a list ends in code if the elements do. -/
theorem endsInCode_ahead (h : ∀ e ∈ elements, e.Passable (· == ',')) : (ahead elements).EndsInCode := by
  induction elements with
  | nil => exact endsInCode_nil
  | cons e elements ih =>
    rw [ahead, List.flatMap_cons]
    exact ((h e List.mem_cons_self).endsInCode_concat rfl).append
      (ih fun d hd => h d (List.mem_cons_of_mem e hd))

/-- What stands in front of an element of a list is passed if the elements are. -/
theorem passable_ahead (h : ∀ e ∈ elements, e.Passable (· == ',')) : (ahead elements).Passable never := by
  induction elements with
  | nil => rfl
  | cons e elements ih =>
    have hcomma : Passable never [','] := by decide
    have helement := (passable_iff.1 (h e List.mem_cons_self)).1
    rw [ahead, List.flatMap_cons, List.append_assoc, List.singleton_append, helement.append_iff (apart_cons rfl)]
    refine (hcomma.append_iff ?_).2 (ih fun d hd => h d (List.mem_cons_of_mem e hd))
    exact apart_concat (s := []) rfl

/-- The first piece of a list ends at the first separator, if there is one. -/
theorem topLevelPieces_eq (t : Text) (c : Char) :
    t.topLevelPieces c =
      match t.cutAtTopLevel? (· == c) with
      | some cut => cut.before.trim :: cut.behind.topLevelPieces c
      | none => [t.trim] := by
  rw [topLevelPieces]
  split
  · next hcut => rw [hcut]
  · next hnone => rw [hnone]

/-- The pieces of a list come element by element. -/
theorem topLevelPieces_of_passable (h : element.Passable (· == ',')) (t : Text) :
    (element ++ ',' :: t).topLevelPieces ',' = element.trim :: t.topLevelPieces ',' := by
  have hcut : (element ++ ',' :: t).cutAtTopLevel? (· == ',') = some ⟨element, ',' :: t⟩ :=
    (cutAtTopLevel?_eq_iff (by simp) rfl (by decide) t).2 h
  rw [topLevelPieces_eq, hcut]
  rfl

/-- The pieces of a list that starts with passable elements. -/
theorem topLevelPieces_ahead (h : ∀ e ∈ elements, e.Passable (· == ',')) (t : Text) :
    (ahead elements ++ t).topLevelPieces ',' = elements.map trim ++ t.topLevelPieces ',' := by
  induction elements with
  | nil => rfl
  | cons e elements ih =>
    rw [ahead, List.flatMap_cons, List.append_assoc, List.append_assoc, List.singleton_append,
      topLevelPieces_of_passable (h e List.mem_cons_self), ← ahead,
      ih fun d hd => h d (List.mem_cons_of_mem e hd)]
    rfl

/-- The pieces of a list that starts with an element and perhaps goes on. -/
theorem topLevelPieces_onwards (h : element.Passable (· == ',')) (back : Option Text) :
    (element ++ onwards back).topLevelPieces ',' =
      element.trim :: (back.map fun t => t.topLevelPieces ',').getD [] := by
  cases back with
  | some t => exact topLevelPieces_of_passable h t
  | none =>
    rw [onwards, List.append_nil, topLevelPieces_eq, (passable_iff.1 h).2]
    rfl

/-- A passable text in front of a list is part of its first piece. -/
theorem topLevelPieces_passable_append (h : element.Passable (· == ',')) (hapart : Apart element t) :
    ∃ piece, t.topLevelPieces ',' = piece.trim :: (t.topLevelPieces ',').tail ∧
      (element ++ t).topLevelPieces ',' = (element ++ piece).trim :: (t.topLevelPieces ',').tail := by
  have hcut := h.cutAtTopLevel?_append hapart
  rw [topLevelPieces_eq t, topLevelPieces_eq (element ++ t), hcut]
  cases t.cutAtTopLevel? (· == ',') with
  | none => exact ⟨t, rfl, rfl⟩
  | some cut => exact ⟨cut.before, rfl, rfl⟩

/-- Blanks in front of a list are no part of its pieces. -/
theorem topLevelPieces_blanks (h : blanks.allBlank = true) (t : Text) :
    (blanks ++ t).topLevelPieces ',' = t.topLevelPieces ',' := by
  obtain ⟨piece, hpieces, hmore⟩ := topLevelPieces_passable_append
    (balanced_of_allBlank h ne_comma_of_isBlank).passable (apart_of_allBlank_left (t := t) h)
  rw [hmore, hpieces, List.tail_cons, trim, trimStart_append h, ← trim]

/-- What starts with a comment starts with a slash when it is trimmed. -/
theorem exists_trim_remark (note t : Text) : ∃ more, (remark note ++ t).trim = '/' :: more := by
  have htrim := trim_append_cons (show isBlank '/' = false by decide) [] ('/' :: (note ++ ['\n']) ++ t)
  exact ⟨_, htrim⟩

/-- A comment in front of a list is the start of its first piece. -/
theorem topLevelPieces_remark (hnote : '\n' ∉ note) (t : Text) :
    ∃ more, (remark note ++ t).topLevelPieces ',' = ('/' :: more) :: (t.topLevelPieces ',').tail := by
  have hpass : (remark note).Passable (· == ',') := walk_remark hnote (topLevelVerdict_newline fun _ => rfl)
  obtain ⟨piece, -, hpieces⟩ := topLevelPieces_passable_append hpass (apart_remark note t)
  obtain ⟨more, hmore⟩ := exists_trim_remark note piece
  exact ⟨more, by rw [hpieces, hmore]⟩

end Lists

/-- What stands in front of an element of a list: passable elements with their separators, and blanks. -/
structure ListFront where
  elements : List Text
  blanks : Text
  passable : ∀ e ∈ elements, e.Passable (· == ',')
  allBlank : blanks.allBlank = true

namespace ListFront

/-- The text in front of the element. -/
def text (f : ListFront) : Text := ahead f.elements ++ f.blanks

/-- An element of a list starts in code. -/
theorem endsInCode (f : ListFront) : f.text.EndsInCode :=
  (endsInCode_ahead f.passable).append (endsInCode_of_allBlank f.allBlank)

/-- What stands in front of an element of a list is passed. -/
theorem passable_text (f : ListFront) : f.text.Passable never := by
  rw [text, (passable_ahead f.passable).append_iff ((endsInCode_ahead f.passable).apart f.blanks)]
  exact (balanced_of_allBlank f.allBlank fun _ _ => rfl).passable

/-- The pieces of a list are the elements in front of one of them and the pieces of the rest. -/
theorem topLevelPieces_text (f : ListFront) (t : Text) :
    (f.text ++ t).topLevelPieces ',' = f.elements.map trim ++ t.topLevelPieces ',' := by
  rw [text, List.append_assoc, topLevelPieces_ahead f.passable, topLevelPieces_blanks f.allBlank]

/-- With a comment in front of an element, the comment is the start of the element's piece. -/
theorem topLevelPieces_remark (f : ListFront) {note : Text} (hnote : '\n' ∉ note) (t : Text) :
    ∃ more, (f.text ++ (remark note ++ t)).topLevelPieces ',' =
      f.elements.map trim ++ ('/' :: more) :: (t.topLevelPieces ',').tail := by
  obtain ⟨more, hmore⟩ := Text.topLevelPieces_remark hnote t
  exact ⟨more, by rw [topLevelPieces_text, hmore]⟩

end ListFront

end Text

end ClassFlattening
