import ClassFlattening.Proofs.RespelledSearches

/-!
# The pieces of a function

The reading of a function cuts its text into qualifiers, a name, parameters, a result and a body. Each of
the searches that do so looks at nothing behind the sign where it stops. So the pieces tell the whole
reading: a text is read as a function just if it is the text of such pieces with anything behind it, and
what is read depends on the pieces alone.
-/

namespace ClassFlattening

open Text

/-- Blanks, and words from a list with a blank behind each of them. -/
inductive Qualifying (words : List Text) : Text → Prop
  | nil : Qualifying words []
  | blank {c : Char} {t : Text} (hc : isBlank c = true) (rest : Qualifying words t) :
      Qualifying words (c :: t)
  | word {w t : Text} {c : Char} (hw : w ∈ words) (hc : isBlank c = true) (rest : Qualifying words t) :
      Qualifying words (w ++ c :: t)

/-- What may stand behind the word that makes a function is a blank. -/
theorem isBlank_of_space_or_tab {c : Char} (hc : c = ' ' ∨ c = '\t') : isBlank c = true := by
  rcases hc with rfl | rfl
  · decide
  · decide

/-- A blank is no character of an identifier. -/
theorem isIdentChar_of_isBlank {c : Char} (hc : isBlank c = true) : isIdentChar c = false := by
  rw [Bool.eq_false_iff]
  intro hword
  rw [isBlank_of_isIdentChar hword] at hc
  cases hc

namespace Qualifying

variable {words : List Text} {q t : Text}

theorem of_allBlank (h : t.allBlank = true) : Qualifying words t := by
  induction t with
  | nil => exact .nil
  | cons c t ih =>
    rw [allBlank, List.all_cons, Bool.and_eq_true] at h
    exact .blank h.1 (ih h.2)

theorem append (h : Qualifying words q) (ht : Qualifying words t) : Qualifying words (q ++ t) := by
  induction h with
  | nil => exact ht
  | blank hc _ ih => exact .blank hc ih
  | word hw hc _ ih =>
    rw [List.append_assoc]
    exact .word hw hc ih

theorem mono {more : List Text} (h : Qualifying words q) (hsub : ∀ w ∈ words, w ∈ more) :
    Qualifying more q := by
  induction h with
  | nil => exact .nil
  | blank hc _ ih => exact .blank hc ih
  | word hw hc _ ih => exact .word (hsub _ hw) hc ih

/-- The qualifiers in front of a text are removed. -/
theorem dropQualifiers_append (h : Qualifying words q) (hwords : ∀ w ∈ words, isIdentifier w = true)
    (t : Text) : dropQualifiers words (q ++ t) = dropQualifiers words t := by
  induction h with
  | nil => rfl
  | blank hc _ ih => rw [List.cons_append, dropQualifiers_blank hc, ih]
  | word hw hc _ ih =>
    rw [List.append_assoc, List.cons_append,
      dropQualifiers_word (hwords _ hw) hw (isIdentChar_of_isBlank hc), dropQualifiers_blank hc, ih]

/-- The search for another word passes qualifiers. -/
theorem cutAtWord?_append (h : Qualifying words q) (hwords : ∀ w ∈ words, isIdentifier w = true)
    {word : Text} (hword : word ∉ words) (hne : word ≠ []) (t : Text) :
    (q ++ t).cutAtWord? word = (t.cutAtWord? word).map fun cut => ⟨q ++ cut.before, cut.after⟩ := by
  induction h with
  | nil => exact Option.map_id'.symm
  | blank hc _ ih =>
    rw [List.cons_append, cutAtWord?_cons (isIdentChar_of_isBlank hc) hne, ih, Option.map_map]
    rfl
  | @word w q c hw hc _ ih =>
    have hother : w ≠ word := by
      rintro rfl
      exact hword hw
    have hchars : ∀ d ∈ w, isIdentChar d = true := fun d => isIdentChar_of_mem (hwords w hw)
    rw [List.append_assoc, List.cons_append,
      cutAtWord?_other hchars hother (ne_nil_of_isIdentifier (hwords w hw)) (isIdentChar_of_isBlank hc),
      ih, Option.map_map]
    simp only [Function.comp_def, List.append_assoc, List.cons_append]

/-- The word that makes a function is found behind its qualifiers. -/
theorem cutAtWord?_fn (h : Qualifying ["pub".toList, "inline".toList, "export".toList] q) {c : Char}
    (hc : isBlank c = true) (t : Text) :
    cutAtWord? (q ++ ("fn".toList ++ c :: t)) "fn".toList = some ⟨q, "fn".toList ++ c :: t⟩ := by
  have hself : cutAtWord? ("fn".toList ++ c :: t) "fn".toList = some ⟨[], "fn".toList ++ c :: t⟩ :=
    cutAtWord?_self (forall_of_all (by decide)) (by decide) (isIdentChar_of_isBlank hc)
  rw [h.cutAtWord?_append (by decide) (by decide) (by decide), hself, Option.map_some, List.append_nil]

/-- No slash stands in front of what qualifiers are put in front of. -/
theorem head?_ne_slash (h : Qualifying words q) (hwords : ∀ w ∈ words, isIdentifier w = true)
    (ht : t.head? ≠ some '/') : (q ++ t).head? ≠ some '/' := by
  cases h with
  | nil => exact ht
  | blank hc _ =>
    intro hslash
    cases hslash
    exact absurd hc (by decide)
  | @word w _ _ hw _ _ =>
    obtain ⟨c, w, rfl⟩ := List.exists_cons_of_ne_nil (ne_nil_of_isIdentifier (hwords _ hw))
    intro hslash
    cases hslash
    exact absurd (isIdentChar_of_mem (hwords _ hw) List.mem_cons_self) (by decide)

end Qualifying

/-- Qualifiers that start with no word start with a blank. -/
theorem Qualifying.exists_blank {words : List Text} {q : Text} (h : Qualifying words q)
    (hwords : ∀ w ∈ words, isIdentifier w = true) (hne : q ≠ []) (hstart : q.startsInWord = false) :
    ∃ c q', q = c :: q' ∧ isBlank c = true ∧ Qualifying words q' := by
  cases h with
  | nil => exact absurd rfl hne
  | blank hc rest => exact ⟨_, _, rfl, hc, rest⟩
  | @word w q c hw _ _ =>
    rw [(isWord_of_isIdentifier (hwords w hw)).startsInWord_append] at hstart
    cases hstart

/-- What is removed in front of a word are qualifiers. -/
theorem exists_qualifying {words : List Text} (hwords : ∀ w ∈ words, isIdentifier w = true) {t : Text}
    (h : (dropQualifiers words t).startsInWord = true) :
    ∃ q, t = q ++ dropQualifiers words t ∧ Qualifying words q := by
  have hblanks (t : Text) : t = t.takeWhile isBlank ++ t.trimStart :=
    List.takeWhile_append_dropWhile.symm
  have hqualifying (t : Text) : Qualifying words (t.takeWhile isBlank) := .of_allBlank List.all_takeWhile
  fun_induction dropQualifiers words t with
  | case1 t hword _ _ ih =>
    obtain ⟨q, hq, hrest⟩ := ih h
    -- The word that is removed ends in front of a blank, since no word goes on behind it.
    have hstart := startsInWord_afterLeadingWord t.trimStart
    have hne : q ≠ [] := by
      rintro rfl
      rw [hq, List.nil_append, h] at hstart
      cases hstart
    have hstart' : q.startsInWord = false := by
      obtain ⟨c, q, rfl⟩ := List.exists_cons_of_ne_nil hne
      rwa [hq] at hstart
    obtain ⟨c, q', rfl, hc, hrest'⟩ := hrest.exists_blank hwords hne hstart'
    refine ⟨t.takeWhile isBlank ++ (t.trimStart.leadingWord ++ c :: q'), ?_,
      (hqualifying t).append (.word hword.2 hc hrest')⟩
    rw [List.append_assoc, List.append_assoc, ← hq, leadingWord_append_afterLeadingWord]
    exact hblanks t
  | case2 t _ => exact ⟨t.takeWhile isBlank, hblanks t, hqualifying t⟩

/-- What starts with qualifiers and the word that makes a function. -/
theorem exists_qualifying_fn {t : Text}
    (h : ("fn ".toList.isPrefixOf (dropQualifiers ["pub".toList, "inline".toList, "export".toList] t) ||
      "fn\t".toList.isPrefixOf (dropQualifiers ["pub".toList, "inline".toList, "export".toList] t)) = true) :
    ∃ q c more, Qualifying ["pub".toList, "inline".toList, "export".toList] q ∧
      t = q ++ ("fn".toList ++ c :: more) ∧ (c = ' ' ∨ c = '\t') := by
  have hfront : ∃ c more, dropQualifiers ["pub".toList, "inline".toList, "export".toList] t =
      "fn".toList ++ c :: more ∧ (c = ' ' ∨ c = '\t') := by
    rw [Bool.or_eq_true, List.isPrefixOf_iff_prefix, List.isPrefixOf_iff_prefix] at h
    rcases h with ⟨more, hmore⟩ | ⟨more, hmore⟩
    · exact ⟨' ', more, hmore.symm, Or.inl rfl⟩
    · exact ⟨'\t', more, hmore.symm, Or.inr rfl⟩
  obtain ⟨c, more, hdrop, hc⟩ := hfront
  have hwords : ∀ w ∈ ["pub".toList, "inline".toList, "export".toList], isIdentifier w = true := by decide
  obtain ⟨q, ht, hq⟩ := exists_qualifying hwords (t := t) (by rw [hdrop]; rfl)
  rw [hdrop] at ht
  exact ⟨q, c, more, hq, ht, hc⟩

/-- The pieces that the text of a function is cut into. -/
structure MethodPieces where
  qualifiers : Text
  gap : Text
  name : Text
  back : Text
  params : Text
  result : Text
  body : Text

namespace MethodPieces

/-- The word that makes a function and its name, up to the parameters. -/
def title (p : MethodPieces) : Text := "fn".toList ++ (p.gap ++ (p.name ++ p.back))

/-- The text up to the end of the parameters. -/
def head (p : MethodPieces) : Text := p.qualifiers ++ p.title ++ ('(' :: p.params ++ [')'])

/-- The text of the pieces. -/
def text (p : MethodPieces) : Text := p.head ++ p.result ++ ('{' :: p.body ++ ['}'])

/-- The function that the pieces are read as. -/
def method (p : MethodPieces) : Method where
  name := p.name
  source := p.text
  signature := (p.head ++ p.result).trim
  returnType := p.result.trim
  isStatic := !firstParamIsSelf p.params

/-- The reading of a function finds these pieces, whatever follows each of them. -/
structure IsRead (p : MethodPieces) : Prop where
  qualifiers : Qualifying ["pub".toList, "inline".toList, "export".toList] p.qualifiers
  gap : ∃ c blanks, p.gap = c :: blanks ∧ (c = ' ' ∨ c = '\t') ∧ allBlank blanks = true
  name : isIdentifier p.name = true
  back : p.back.allBlank = true
  params : ∀ rest, cutAtMatching? ('(' :: p.params ++ ')' :: rest) '(' ')' =
    some ⟨'(' :: p.params, ')' :: rest⟩
  result : ∀ rest, OpensBody rest p.head p.result
  body : ∀ rest, cutAtMatching? ('{' :: p.body ++ '}' :: rest) '{' '}' =
    some ⟨'{' :: p.body, '}' :: rest⟩

variable {p : MethodPieces}

theorem text_append (p : MethodPieces) (rest : Text) :
    p.text ++ rest = p.qualifiers ++ (p.title ++
      ('(' :: p.params ++ ')' :: (p.result ++ '{' :: (p.body ++ '}' :: rest)))) := by
  simp only [text, head, List.append_assoc, List.cons_append, List.nil_append]

/-- No word goes on behind the parenthesis that closes the parameters. -/
theorem parted_head (p : MethodPieces) (t : Text) : Parted p.head t := by
  rw [head, ← List.append_assoc]
  exact parted_concat (by decide) _ t

/-- The gap behind the word that makes a function has blanks only. -/
theorem IsRead.allBlank_gap (h : p.IsRead) : p.gap.allBlank = true := by
  obtain ⟨c, blanks, hgap, hc, hblanks⟩ := h.gap
  have hblank := isBlank_of_space_or_tab hc
  rw [hgap, allBlank, List.all_cons, hblank]
  exact hblanks

/-- The name stands between the word that makes a function and the parameters. -/
theorem IsRead.trim_title (h : p.IsRead) : trim (p.title.drop 2) = p.name := by
  have hdrop : p.title.drop 2 = p.gap ++ (p.name ++ p.back) := rfl
  rw [hdrop, ← List.append_assoc]
  exact trim_around h.allBlank_gap (trim_of_isIdentifier h.name) h.back

/-- The parameters open at the first parenthesis. -/
theorem IsRead.ne_of_mem_title (h : p.IsRead) : ∀ c ∈ p.title, (c == '(') = false := by
  have hblank {t : Text} (ht : t.allBlank = true) : '(' ∉ t :=
    fun hmem => absurd (List.all_eq_true.1 ht _ hmem) (by decide)
  intro c hc
  rw [beq_eq_false_iff_ne]
  rintro rfl
  rw [title, List.mem_append, List.mem_append, List.mem_append] at hc
  rcases hc with hc | hc | hc | hc
  · exact absurd hc (by decide)
  · exact hblank h.allBlank_gap hc
  · exact not_mem_of_isIdentifier h.name (by decide) hc
  · exact hblank h.back hc

/-- What follows the word that makes a function starts with a blank. -/
theorem IsRead.title_eq (h : p.IsRead) :
    ∃ c rest, p.title = "fn".toList ++ c :: rest ∧ (c = ' ' ∨ c = '\t') := by
  obtain ⟨c, blanks, hgap, hc, -⟩ := h.gap
  exact ⟨c, blanks ++ (p.name ++ p.back), by rw [title, hgap, List.cons_append], hc⟩

/-- A function is read from the text of its pieces. -/
theorem IsRead.readMethod?_text (h : p.IsRead) (rest : Text) :
    readMethod? (p.text ++ rest) = some (p.method, rest) := by
  obtain ⟨c, more, htitle, hc⟩ := h.title_eq
  have hqualified (t : Text) :
      cutAtWord? (p.qualifiers ++ (p.title ++ t)) "fn".toList = some ⟨p.qualifiers, p.title ++ t⟩ := by
    rw [htitle, List.append_assoc, List.cons_append]
    exact h.qualifiers.cutAtWord?_fn (isBlank_of_space_or_tab hc) (more ++ t)
  have hnamed (t : Text) : cutAtFirst? (· == '(') (p.title ++ '(' :: t) = some ⟨p.title, '(' :: t⟩ :=
    cutAtFirst?_self h.ne_of_mem_title rfl
  have hparams := h.params (p.result ++ '{' :: (p.body ++ '}' :: rest))
  have hresult := (h.result (p.body ++ '}' :: rest)).cutAtBodyOpen?
  have hbody := h.body rest
  rw [List.cons_append] at hparams hbody
  rw [text_append, readMethod?]
  simp only [List.cons_append, hqualified, hnamed, hparams, Option.bind_eq_bind, Option.bind_some,
    h.trim_title, h.name, if_true]
  change (cutAtBodyOpen? (p.result ++ '{' :: (p.body ++ '}' :: rest)) p.head.reverse).bind _ = _
  rw [hresult, Option.bind_some]
  change (cutAtMatching? ('{' :: (p.body ++ '}' :: rest)) '{' '}').bind _ = _
  rw [hbody]
  rfl

/-- What stands between brackets is told by them, whatever follows. -/
theorem exists_inner_of_cutAtMatching? {t : Text} {opening closing : Char} {cut : Cut}
    (hopening : isIdentChar opening = false) (hclosing : isIdentChar closing = false)
    (hline : isLineStart closing = false) (hne : opening ≠ closing)
    (h : t.cutAtMatching? opening closing = some cut) :
    ∃ inner behind, t = opening :: inner ++ closing :: behind ∧
      cut = ⟨opening :: inner, closing :: behind⟩ ∧
      ∀ rest, cutAtMatching? (opening :: inner ++ closing :: rest) opening closing =
        some ⟨opening :: inner, closing :: rest⟩ := by
  obtain ⟨inner, hbefore⟩ := exists_before_of_cutAtMatching? hne h
  obtain ⟨behind, hafter⟩ := exists_of_cutAtMatching? h
  have hwhole := whole_of_cutAtMatching? h
  obtain ⟨before, after⟩ := cut
  subst hbefore hafter hwhole
  exact ⟨inner, behind, rfl, rfl,
    fun rest => (Respelled.refl [] [] inner).cutAtMatching?_eq hopening hclosing hline h⟩

/-- The name of a function stands between blanks. -/
theorem exists_title {c : Char} {more : Text} {named : Cut} (hc : isBlank c = true)
    (h : cutAtFirst? (· == '(') ("fn".toList ++ c :: more) = some named) :
    ∃ gap name back, named.before = "fn".toList ++ (c :: gap ++ (name ++ back)) ∧
      trim (named.before.drop 2) = name ∧ allBlank gap = true ∧ allBlank back = true := by
  have hfront : ∀ d ∈ "fn".toList ++ [c], (d == '(') = false := by
    intro d hd
    rw [beq_eq_false_iff_ne]
    rintro rfl
    rw [List.mem_append, List.mem_singleton] at hd
    rcases hd with hd | rfl
    · exact absurd hd (by decide)
    · exact absurd hc (by decide)
  have hpassed := cutAtFirst?_append (t := more) hfront
  rw [List.append_assoc, List.singleton_append, h] at hpassed
  obtain ⟨opened, -, rfl⟩ := Option.map_eq_some_iff.1 hpassed.symm
  obtain ⟨gap, back, hbetween, hgap, hback⟩ := exists_blanks opened.before
  refine ⟨gap, opened.before.trim, back, ?_, ?_, hgap, hback⟩
  · have hspaced : c :: gap ++ (opened.before.trim ++ back) = c :: opened.before := by
      rw [← List.append_assoc, List.cons_append, List.cons_append, ← hbetween]
    rw [hspaced]
    rfl
  · change trim (c :: opened.before) = opened.before.trim
    rw [trim, trimStart, List.dropWhile_cons_of_pos hc]
    rfl

/-- The pieces of a function that starts with qualifiers. -/
theorem exists_of_readMethod? {t rest : Text} {m : Method} {q more : Text} {c : Char}
    (hq : Qualifying ["pub".toList, "inline".toList, "export".toList] q)
    (ht : t = q ++ ("fn".toList ++ c :: more)) (hc : c = ' ' ∨ c = '\t')
    (h : readMethod? t = some (m, rest)) :
    ∃ p : MethodPieces, p.IsRead ∧ t = p.text ++ rest ∧ m = p.method := by
  have hblank := isBlank_of_space_or_tab hc
  have hqualified : t.cutAtWord? "fn".toList = some ⟨q, "fn".toList ++ c :: more⟩ := by
    rw [ht]
    exact hq.cutAtWord?_fn hblank more
  simp only [readMethod?, hqualified, Option.bind_eq_bind, Option.bind_some,
    Option.bind_eq_some_iff] at h
  obtain ⟨named, hnamed, h⟩ := h
  split at h
  · next hname =>
    simp only [Option.bind_eq_some_iff] at h
    obtain ⟨params, hparams, result, hresult, body, hbody, h⟩ := h
    obtain ⟨inner, afterParams, hnamedAfter, rfl, hparams'⟩ :=
      exists_inner_of_cutAtMatching? (by decide) (by decide) (by decide) (by decide) hparams
    obtain ⟨block, afterBody, hresultAfter, rfl, hbody'⟩ :=
      exists_inner_of_cutAtMatching? (by decide) (by decide) (by decide) (by decide) hbody
    obtain ⟨gap, name, back, htitle, htrim, hgap, hback⟩ := exists_title hblank hnamed
    have hnamedWhole := whole_of_cutWhere _ hnamed
    have hresultWhole := whole_of_cutAtBodyOpen? hresult
    obtain ⟨title, afterTitle⟩ := named
    obtain ⟨beforeBody, afterResult⟩ := result
    dsimp only at hresultAfter hnamedAfter htitle htrim hname h
    rw [htrim] at hname h
    subst hresultAfter hnamedAfter htitle
    change beforeBody ++ ('{' :: (block ++ '}' :: afterBody)) = afterParams at hresultWhole
    rw [← hnamedWhole] at ht
    subst hresultWhole
    cases h
    let p : MethodPieces := ⟨q, c :: gap, name, back, inner, beforeBody, block⟩
    have hread : p.IsRead :=
      { qualifiers := hq
        gap := ⟨c, gap, rfl, hc, hgap⟩
        name := hname
        back := hback
        params := hparams'
        result := fun _ => (Respelled.refl [] [] beforeBody).opensBody (by decide) (by decide)
          (Respelled.refl [] [] p.head) (parted_head p beforeBody) (opensBody_of_cutAtBodyOpen? hresult)
        body := hbody' }
    exact ⟨p, hread, ht.trans (text_append p afterBody).symm, rfl⟩
  · cases h

/-- What starts with qualifiers and the word that makes a function is no comment. -/
theorem IsRead.isPrefixOf_slashes (h : p.IsRead) (rest : Text) :
    "//".toList.isPrefixOf (p.text ++ rest) = false := by
  have hhead := h.qualifiers.head?_ne_slash (by decide) (t := p.title ++
    ('(' :: p.params ++ ')' :: (p.result ++ '{' :: (p.body ++ '}' :: rest)))) (by
      intro hslash
      exact absurd (show some 'f' = some '/' from hslash) (by decide))
  rw [← text_append] at hhead
  rw [Bool.eq_false_iff, ne_eq, List.isPrefixOf_iff_prefix]
  rintro ⟨more, hmore⟩
  rw [← hmore] at hhead
  exact hhead rfl

/-- The text of the pieces is read as their function. -/
theorem IsRead.read_text (h : p.IsRead) (rest : Text) :
    Member.read (p.text ++ rest) = (.method p.method, rest) := by
  obtain ⟨c, more, htitle, hc⟩ := h.title_eq
  have hword := isIdentChar_of_isBlank (isBlank_of_space_or_tab hc)
  have hdrop : dropQualifiers ["pub".toList, "inline".toList, "export".toList] (p.text ++ rest) =
      "fn".toList ++ c :: (more ++
        ('(' :: p.params ++ ')' :: (p.result ++ '{' :: (p.body ++ '}' :: rest)))) := by
    rw [text_append, h.qualifiers.dropQualifiers_append (by decide), htitle, List.append_assoc,
      List.cons_append]
    exact dropQualifiers_other (by decide) (by decide) hword
  have hfn (t : Text) :
      ("fn ".toList.isPrefixOf ("fn".toList ++ c :: t) || "fn\t".toList.isPrefixOf ("fn".toList ++ c :: t)) =
        true := by
    rcases hc with rfl | rfl
    · rfl
    · rfl
  rw [Member.read]
  simp only [hdrop, hfn, h.isPrefixOf_slashes, h.readMethod?_text, Bool.false_eq_true, if_false, if_true]

end MethodPieces

namespace Member

/-- A reference, a value or a field is no function. -/
theorem method?_readReferenceBinding? {t rest : Text} {member : Member}
    (h : readReferenceBinding? t = some (member, rest)) : member.method? = none := by
  simp only [readReferenceBinding?, Option.bind_eq_bind, Option.bind_eq_some_iff] at h
  obtain ⟨cut, -, h⟩ := h
  split at h
  · split at h
    · cases h
      rfl
    · split at h
      · cases h
        rfl
      · cases h
        rfl
  · cases h

theorem method?_readConstant (t : Text) : (readConstant t).1.method? = none := by
  rw [readConstant]
  split
  · next hread => exact method?_readReferenceBinding? hread
  · split
    · rfl
    · split
      · rfl
      · dsimp only
        split
        · rfl
        · split
          · rfl
          · rfl

theorem method?_fieldMember (name type : Text) (value : Option Text) :
    (fieldMember name type value).method? = none := by
  rw [fieldMember]
  split
  · rfl
  · split
    · rfl
    · split
      · rfl
      · rfl

theorem method?_readField (t : Text) : (readField t).1.method? = none := by
  simp only [readField]
  split
  · rfl
  · split
    · rfl
    · split
      · exact method?_fieldMember _ _ _
      · exact method?_fieldMember _ _ _

/-- A text is read as a function just if it starts with the pieces of one. -/
theorem read_eq_method_iff {t rest : Text} {m : Method} :
    Member.read t = (.method m, rest) ↔
      ∃ p : MethodPieces, p.IsRead ∧ t = p.text ++ rest ∧ m = p.method := by
  constructor
  · intro h
    have hnone {read : Member × Text} (h : read = (.method m, rest)) (hread : read.1.method? = none) :
        False := by
      rw [h] at hread
      cases hread
    simp only [Member.read] at h
    split at h
    · cases h
    · split at h
      · next hfn =>
        split at h
        · next hread =>
          cases h
          obtain ⟨q, c, more, hq, ht, hc⟩ := exists_qualifying_fn hfn
          exact MethodPieces.exists_of_readMethod? hq ht hc hread
        · cases h
      · -- No other member is a function.
        split at h
        · cases h
        · split at h
          · exact (hnone h (method?_readConstant t)).elim
          · exact (hnone h (method?_readField t)).elim
  · rintro ⟨p, hread, rfl, rfl⟩
    exact hread.read_text rest

end Member

end ClassFlattening
