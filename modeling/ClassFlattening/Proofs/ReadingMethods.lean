import ClassFlattening.Proofs.ReadingBindings

/-!
# Reading functions

The body of a function opens at the first brace that belongs to no inline error set. If the only braces of
a return type are those of error sets and the type does not end with the word that would make the body
one, the search steps over them and stops at the body. The line of a function is read with its name, its
texts and whether its first parameter is the instance.
-/

namespace ClassFlattening

open Text

namespace Text

section EndsWithWord

variable {s t word : Text} {c : Char}

/-- A character that cannot stand in a word hides what is behind it from the word. -/
theorem leadingWord_append_cons (hc : isIdentChar c = false) :
    leadingWord (s ++ c :: t) = s.leadingWord := by
  induction s with
  | nil => exact leadingWord_cons hc
  | cons d s ih =>
    rw [leadingWord] at ih ⊢
    cases hd : isIdentChar d with
    | false => rw [List.cons_append, List.takeWhile_cons_of_neg (by simp [hd]), leadingWord,
        List.takeWhile_cons_of_neg (by simp [hd])]
    | true => rw [List.cons_append, List.takeWhile_cons_of_pos hd, ih, leadingWord, leadingWord,
        List.takeWhile_cons_of_pos hd]

/-- Whether a text ends with a word is decided behind the last sign in front of it. -/
theorem endsWithWord_append_cons (hc : isIdentChar c = false) (hblank : isBlank c = false) :
    endsWithWord (s ++ c :: t) word = endsWithWord s word := by
  rw [endsWithWord, endsWithWord, trimStart_append_cons hblank, leadingWord_append_cons hc]

/-- A sign or a blank in front of a text does not change the word that the text ends with. -/
theorem endsWithWord_concat (hc : isIdentChar c = false) :
    endsWithWord (s ++ [c]) word = endsWithWord s word := by
  rw [endsWithWord, endsWithWord, trimStart, trimStart, List.dropWhile_append]
  cases hs : s.dropWhile isBlank with
  | nil =>
    have hnone : leadingWord ([c].dropWhile isBlank) = [] := by
      cases hblank : isBlank c with
      | true => rw [List.dropWhile_cons_of_pos hblank]; rfl
      | false => rw [List.dropWhile_cons_of_neg (by simp [hblank]), leadingWord_cons hc]
    rw [List.isEmpty_nil, if_pos rfl, hnone]
    rfl
  | cons d rest =>
    rw [List.isEmpty_cons, if_neg Bool.false_ne_true, leadingWord_append_cons hc]

/-- Blanks at its end do not matter for the word that a text ends with. -/
theorem endsWithWord_blanks (hs : s.allBlank = true) :
    endsWithWord (s ++ t) word = endsWithWord t word := by
  rw [endsWithWord, endsWithWord, trimStart_append hs]

end EndsWithWord

namespace ErrorSetsOnly

variable {t : Text}

/-- A blank in front of a return type changes nothing about its braces. -/
theorem blank_cons (h : ErrorSetsOnly t) : ErrorSetsOnly (' ' :: t) := by
  have hspace : [' '].all (isPlain (· == '{')) = true := by decide
  cases h with
  | plain ht => exact .plain (.plain_append hspace ht)
  | @errorSet front gap names rest hfront hword hgap hnames hrest =>
    have hfront' : ∀ c ∈ (' ' :: front).getLast?, isIdentChar c = false := by
      intro c hc
      cases front with
      | nil => cases hc; decide
      | cons d front => exact hword c (by rwa [List.getLast?_cons_cons] at hc)
    exact .errorSet (.plain_append hspace hfront) hfront' hgap hnames hrest

/-- The text in front of the braces of an error set is balanced. -/
theorem balanced_front {front gap : Text} (hfront : front.Balanced (· == '{'))
    (hgap : gap.allBlank = true) : (front ++ "error".toList ++ gap).Balanced (· == '{') := by
  have hblank : ∀ c, isBlank c = true → (c == '{') = false := by
    intro c hc
    rw [beq_eq_false_iff_ne]
    rintro rfl
    exact absurd hc (by decide)
  have herror : "rror".toList.all (isPlain (· == '{')) = true := by decide
  rw [List.append_assoc]
  exact hfront.glue (c := 'e') (balanced_of_allBlank hgap hblank) rfl herror

/-- A return type is balanced. -/
theorem balanced (h : ErrorSetsOnly t) : t.Balanced never := by
  have hnever : ∀ c, never c = true → (c == '{') = true := fun _ hc => by cases hc
  induction h with
  | plain ht => exact ht.weaken hnever
  | @errorSet front gap names rest hfront hword hgap hnames hrest ih =>
    have hset : Balanced never ('{' :: names ++ ['}']) := Balanced.bracket rfl rfl hnames
    have hboth := ((balanced_front hfront hgap).weaken hnever).append hset (apart_cons rfl)
    rw [← List.append_assoc] at hboth
    have hwhole := hboth.append ih (apart_concat rfl)
    rwa [List.append_assoc _ ['}'] rest] at hwhole

/-- In front of the braces of an error set stands its word. -/
theorem endsWithWord_front {front gap passed : Text} {c : Char} (hc : isIdentChar c = false)
    (hword : ∀ d ∈ front.getLast?, isIdentChar d = false) (hgap : gap.allBlank = true) :
    endsWithWord ((front ++ "error".toList ++ gap).reverse ++ c :: passed) "error".toList = true := by
  have hreverse : allBlank gap.reverse = true := by
    rw [allBlank, List.all_reverse]
    exact hgap
  rw [List.reverse_append, List.append_assoc, endsWithWord_blanks hreverse, List.reverse_append,
    List.append_assoc]
  have herror : ∀ d ∈ "error".toList.reverse, isIdentChar d = true := forall_of_all (by decide)
  have hstart : ∀ u : Text, trimStart ("error".toList.reverse ++ u) = "error".toList.reverse ++ u :=
    fun u => trimStart_word (by decide)
  rw [endsWithWord, hstart]
  cases hfront : front.reverse with
  | nil => rw [List.nil_append, leadingWord_append herror hc, beq_self_eq_true]
  | cons d rest =>
    have hd : isIdentChar d = false := hword d (by rw [← List.head?_reverse, hfront]; rfl)
    rw [List.cons_append, leadingWord_append herror hd, beq_self_eq_true]

/-- The body of a function opens behind a return type whose braces are those of error sets. -/
theorem cutAtBodyOpen? (h : ErrorSetsOnly t) (hlast : endsWithWord t.reverse "error".toList = false)
    {c : Char} (hc : isIdentChar c = false) (hblank : isBlank c = false) (passed rest : Text) :
    Text.cutAtBodyOpen? (t ++ ' ' :: '{' :: rest) (c :: passed) = some ⟨t ++ [' '], '{' :: rest⟩ := by
  induction h generalizing c passed with
  | @plain t ht =>
    have hspace : [' '].all (isPlain (· == '{')) = true := by decide
    have hcut : cutAtTopLevel? (t ++ ' ' :: '{' :: rest) (· == '{') = some ⟨t ++ [' '], '{' :: rest⟩ := by
      have h := (ht.append (.of_plain hspace) (apart_cons rfl)).cutAtTopLevel? (c := '{') rfl rfl rfl rest
      rwa [List.append_assoc] at h
    have hbody : endsWithWord ((t ++ [' ']).reverse ++ c :: passed) "error".toList = false := by
      have hone : allBlank [' '] = true := rfl
      rw [List.reverse_append, List.append_assoc, List.reverse_singleton, endsWithWord_blanks hone,
        endsWithWord_append_cons hc hblank, hlast]
    rw [Text.cutAtBodyOpen?]
    split
    · next hnone =>
      rw [hcut] at hnone
      cases hnone
    · next hsome =>
      rw [hcut] at hsome
      cases hsome
      rw [if_neg (by rw [hbody]; exact Bool.false_ne_true)]
  | @errorSet front gap names more hfront hword hgap hnames hmore ih =>
    have hcut : cutAtTopLevel? (front ++ "error".toList ++ gap ++ '{' :: names ++ '}' :: more ++
        ' ' :: '{' :: rest) (· == '{') =
          some ⟨front ++ "error".toList ++ gap, '{' :: names ++ '}' :: (more ++ ' ' :: '{' :: rest)⟩ := by
      have h := (balanced_front hfront hgap).cutAtTopLevel? (c := '{') rfl rfl rfl
        (names ++ '}' :: (more ++ ' ' :: '{' :: rest))
      rw [List.append_assoc _ ('{' :: names), List.append_assoc _ ('{' :: names ++ '}' :: more),
        List.append_assoc ('{' :: names)]
      exact h
    have hset : endsWithWord ((front ++ "error".toList ++ gap).reverse ++ c :: passed) "error".toList =
        true := endsWithWord_front hc hword hgap
    have hclosed : cutAtMatching? ('{' :: names ++ '}' :: (more ++ ' ' :: '{' :: rest)) '{' '}' =
        some ⟨'{' :: names, '}' :: (more ++ ' ' :: '{' :: rest)⟩ := hnames.cutAtMatching? rfl _
    have hmore : endsWithWord more.reverse "error".toList = false := by
      rw [List.reverse_append, List.reverse_cons, List.append_assoc, List.singleton_append,
        endsWithWord_append_cons (by decide) (by decide)] at hlast
      exact hlast
    have hbody := ih hmore (c := '}') (by decide) (by decide)
    rw [Text.cutAtBodyOpen?]
    split
    · next hnone =>
      rw [hcut] at hnone
      cases hnone
    · next hsome =>
      rw [hcut] at hsome
      cases hsome
      rw [if_pos hset]
      split
      · next hnone =>
        rw [hclosed] at hnone
        cases hnone
      · next hsome =>
        rw [hclosed] at hsome
        cases hsome
        have hpassed : Cut.through ⟨'{' :: names, '}' :: (more ++ ' ' :: '{' :: rest)⟩ =
            '{' :: names ++ ['}'] := rfl
        rw [hpassed, List.reverse_append]
        change (Text.cutAtBodyOpen? (more ++ ' ' :: '{' :: rest) ('}' :: _)).map _ = _
        rw [hbody]
        simp

end ErrorSetsOnly

end Text

section Parameters

variable {param : Text} {params : List Text}

/-- A trimmed parameter is called `self` if it starts with `self`, blanks and a colon. -/
theorem MethodLine.namesSelf_iff (htrim : param.trim = param) :
    namesSelf param = true ↔
      ∃ blanks more, param = "self".toList ++ (blanks ++ ':' :: more) ∧ blanks.allBlank = true := by
  rw [namesSelf, Option.any_eq_true]
  constructor
  · intro ⟨cut, hcut, hname⟩
    obtain ⟨hwhole, -⟩ := eq_of_cutAtFirst? hcut
    obtain ⟨front, back, hbefore, hfront, hback⟩ := exists_blanks cut.before
    have hparam : param = front ++ "self".toList ++ back ++ ':' :: cut.behind := by
      rw [← eq_of_beq hname, ← hbefore]
      exact hwhole
    cases front with
    | nil => exact ⟨back, cut.behind, by rw [hparam]; simp, hback⟩
    | cons d front =>
      have hd : isBlank d = true := List.all_eq_true.1 hfront d List.mem_cons_self
      rw [isBlank_head htrim (c := d) (by rw [hparam]; rfl)] at hd
      cases hd
  · intro ⟨blanks, more, hparam, hblanks⟩
    have hself : trim "self".toList = "self".toList := by decide
    refine ⟨⟨"self".toList ++ blanks, ':' :: more⟩, ?_, ?_⟩
    · rw [hparam]
      exact cutAtFirst?_behind_word (by decide) hblanks (by decide) (by decide) more
    · have htrimmed := trim_around (s := []) rfl hself hblanks
      rw [List.nil_append] at htrimmed
      rw [htrimmed, beq_self_eq_true]

/-- The first parameter of a written list is the instance if it is called `self`. -/
theorem firstParamIsSelf_listed (h : ∀ param ∈ params, param.Writable (· == ',')) :
    firstParamIsSelf (listed params) = params.head?.any MethodLine.namesSelf := by
  have hsplit : splitTopLevel ([] ++ listed params ++ []) ',' = params :=
    splitTopLevel_listed h rfl rfl
  rw [List.nil_append, List.append_nil] at hsplit
  rw [firstParamIsSelf, hsplit]
  cases params with
  | nil => rfl
  | cons param params =>
    have htrim := (h param List.mem_cons_self).trim
    simp only [List.head?_cons, Option.any_some]
    rw [Bool.eq_iff_iff, MethodLine.namesSelf_iff htrim]
    constructor
    · intro hself
      cases hdrop : param.dropLead? "self".toList with
      | none =>
        rw [hdrop] at hself
        cases hself
      | some rest =>
        rw [hdrop] at hself
        obtain ⟨more, hmore⟩ := List.head?_eq_some_iff.1 (eq_of_beq hself)
        refine ⟨rest.takeWhile isBlank, more, ?_, List.all_takeWhile⟩
        rw [dropLead?_eq_some_iff.1 hdrop, ← hmore, trimStart, List.takeWhile_append_dropWhile]
    · intro ⟨blanks, more, hparam, hblanks⟩
      have hstart : trimStart (':' :: more) = ':' :: more := List.dropWhile_cons_of_neg (by decide)
      rw [dropLead?_eq_some_iff.2 hparam]
      simp only [trimStart_append hblanks, hstart]
      rfl

end Parameters

namespace MethodLine

variable {m : MethodLine}

/-- The text of a function, piece by piece. -/
theorem text_append (m : MethodLine) (rest : Text) :
    m.text ++ rest = visibility m.isPublic ++ ("fn".toList ++ ' ' :: (m.name ++
      ('(' :: listed m.params ++ ')' :: (' ' :: m.result ++ ' ' :: ('{' :: m.body ++ '}' :: rest))))) := by
  have hword : "fn ".toList = "fn".toList ++ [' '] := by decide
  simp only [text, signature, hword, List.append_assoc, List.cons_append, List.nil_append]

/-- The parameters of a function are balanced. -/
theorem balanced_params (h : m.Canonical) : (listed m.params).Balanced never :=
  balanced_listed (fun param hparam => (h.params param hparam).balanced.weaken fun _ hc => by cases hc) rfl rfl

/-- What starts like a function is read as one. -/
theorem read_fn (isPublic : Bool) (t : Text) {method : Method} {rest : Text}
    (h : readMethod? (visibility isPublic ++ ("fn".toList ++ ' ' :: t)) = some (method, rest)) :
    Member.read (visibility isPublic ++ ("fn".toList ++ ' ' :: t)) = (.method method, rest) := by
  have hdrop : dropQualifiers ["pub".toList, "inline".toList, "export".toList]
      (visibility isPublic ++ ("fn".toList ++ ' ' :: t)) = "fn".toList ++ ' ' :: t := by
    rw [dropQualifiers_visibility (by decide)]
    exact dropQualifiers_other (by decide) (by decide) (by decide)
  have hslashes : "//".toList.isPrefixOf (visibility isPublic ++ ("fn".toList ++ ' ' :: t)) = false := by
    cases isPublic with
    | false => rfl
    | true => rfl
  have hfn : "fn ".toList.isPrefixOf ("fn".toList ++ ' ' :: t) = true :=
    List.isPrefixOf_iff_prefix.2 ⟨t, rfl⟩
  simp only [Member.read, hdrop, hslashes, hfn, h]
  rfl

/-- The word that makes a function stands behind its visibility. -/
theorem cutAtWord?_fn (isPublic : Bool) (t : Text) :
    cutAtWord? (visibility isPublic ++ ("fn".toList ++ ' ' :: t)) "fn".toList =
      some ⟨visibility isPublic, "fn".toList ++ ' ' :: t⟩ := by
  have hself : cutAtWord? ("fn".toList ++ ' ' :: t) "fn".toList = some ⟨[], "fn".toList ++ ' ' :: t⟩ :=
    cutAtWord?_self (forall_of_all (by decide)) (by decide) (by decide)
  cases isPublic with
  | false => exact hself
  | true =>
    have hpub : cutAtWord? ("pub".toList ++ ' ' :: ("fn".toList ++ ' ' :: t)) "fn".toList =
        (cutAtWord? ("fn".toList ++ ' ' :: t) "fn".toList).map fun cut =>
          ⟨"pub".toList ++ ' ' :: cut.before, cut.after⟩ :=
      cutAtWord?_other (forall_of_all (by decide)) (by decide) (by decide) (by decide)
    rw [hself] at hpub
    exact hpub

/-- The text of a function up to its body is trimmed. -/
theorem trim_signature (h : m.Canonical) : m.signature.trim = m.signature := by
  apply trim_eq_self
  · intro c hc
    cases hpublic : m.isPublic with
    | false =>
      rw [signature, hpublic] at hc
      have hfirst : some 'f' = some c := hc
      cases hfirst
      decide
    | true =>
      rw [signature, hpublic] at hc
      have hfirst : some 'p' = some c := hc
      cases hfirst
      decide
  · intro c hc
    have hresult : (' ' :: m.result).getLast? = m.result.getLast? :=
      List.getLast?_append_of_ne_nil [' '] h.result_ne_nil
    rw [signature, List.getLast?_append_of_ne_nil _ (List.cons_ne_nil _ _), hresult] at hc
    exact isBlank_getLast h.result_trim hc

/-- A function is read with its name and its texts. -/
theorem readMethod?_text (h : m.Canonical)
    (hlast : endsWithWord m.result.reverse "error".toList = false) (rest : Text) :
    readMethod? (m.text ++ rest) = some (m.method, rest) := by
  have hspace : allBlank [' '] = true := rfl
  have hnamed : cutAtFirst? (· == '(') ("fn".toList ++ ' ' :: (m.name ++ ('(' :: listed m.params ++
      ')' :: (' ' :: m.result ++ ' ' :: ('{' :: m.body ++ '}' :: rest))))) =
        some ⟨"fn".toList ++ ' ' :: m.name, '(' :: listed m.params ++
          ')' :: (' ' :: m.result ++ ' ' :: ('{' :: m.body ++ '}' :: rest))⟩ := by
    have hfront : ∀ c ∈ "fn".toList ++ ' ' :: m.name, (c == '(') = false := by
      intro c hc
      rw [beq_eq_false_iff_ne]
      intro heq
      rw [heq, List.mem_append, List.mem_cons] at hc
      rcases hc with hc | hc | hc
      · exact absurd hc (by decide)
      · cases hc
      · exact not_mem_of_isIdentifier h.name (by decide) hc
    have hcut := cutAtFirst?_self hfront (c := '(') rfl
      (t := listed m.params ++ ')' :: (' ' :: m.result ++ ' ' :: ('{' :: m.body ++ '}' :: rest)))
    rwa [List.append_assoc] at hcut
  have hname : trim (List.drop 2 ("fn".toList ++ ' ' :: m.name)) = m.name :=
    trim_blank_cons (c := ' ') (by decide) (trim_of_isIdentifier h.name)
  have hparams := (balanced_params h).cutAtMatching? (show isOpening '(' = true from rfl)
    (' ' :: m.result ++ ' ' :: ('{' :: m.body ++ '}' :: rest))
  have hbody : cutAtMatching? ('{' :: m.body ++ '}' :: rest) '{' '}' =
      some ⟨'{' :: m.body, '}' :: rest⟩ := h.body.cutAtMatching? rfl rest
  have hresult : ∀ passed, cutAtBodyOpen? (' ' :: m.result ++ ' ' :: ('{' :: m.body ++ '}' :: rest))
      (')' :: passed) = some ⟨' ' :: m.result ++ [' '], '{' :: m.body ++ '}' :: rest⟩ := by
    intro passed
    refine h.result.blank_cons.cutAtBodyOpen? ?_ (by decide) (by decide) passed _
    rw [List.reverse_cons, endsWithWord_concat (by decide)]
    exact hlast
  have hreturn : trim (' ' :: m.result ++ [' ']) = m.result := trim_around hspace h.result_trim hspace
  have hsignature : trim (visibility m.isPublic ++ ("fn".toList ++ ' ' :: m.name) ++
      ('(' :: listed m.params ++ [')']) ++ (' ' :: m.result ++ [' '])) = m.signature := by
    have htrim := trim_around (s := []) rfl (trim_signature h) hspace
    rw [List.nil_append] at htrim
    rw [← List.append_assoc]
    exact htrim
  rw [text_append, readMethod?, cutAtWord?_fn]
  simp only [Option.bind_eq_bind, Option.bind_some, hnamed, hname, h.name, if_true]
  change (cutAtMatching? ('(' :: listed m.params ++ ')' :: _) '(' ')').bind _ = _
  change cutAtMatching? ('(' :: listed m.params ++ ')' :: _) '(' ')' = _ at hparams
  have hreverse : (visibility m.isPublic ++ ("fn".toList ++ ' ' :: m.name) ++
      ('(' :: listed m.params ++ [')'])).reverse =
        ')' :: (visibility m.isPublic ++ ("fn".toList ++ ' ' :: m.name) ++ '(' :: listed m.params).reverse := by
    rw [← List.append_assoc, List.reverse_concat]
  rw [hparams, Option.bind_some]
  change (cutAtBodyOpen? (' ' :: m.result ++ ' ' :: ('{' :: m.body ++ '}' :: rest))
    (visibility m.isPublic ++ ("fn".toList ++ ' ' :: m.name) ++
      ('(' :: listed m.params ++ [')'])).reverse).bind _ = _
  rw [hreverse, hresult, Option.bind_some]
  change (cutAtMatching? ('{' :: m.body ++ '}' :: rest) '{' '}').bind _ = _
  rw [hbody, Option.bind_some]
  have hsource : visibility m.isPublic ++ ("fn".toList ++ ' ' :: m.name) ++
      ('(' :: listed m.params ++ [')']) ++ (' ' :: m.result ++ [' ']) ++ ('{' :: m.body ++ ['}']) = m.text := by
    have hwhole := text_append m []
    rw [List.append_nil] at hwhole
    rw [hwhole]
    simp only [List.append_assoc, List.cons_append, List.nil_append]
  have hmethod : Method.mk m.name
      (visibility m.isPublic ++ ("fn".toList ++ ' ' :: m.name) ++ ('(' :: listed m.params ++ [')']) ++
        (' ' :: m.result ++ [' ']) ++ ('{' :: m.body ++ ['}']))
      (trim (visibility m.isPublic ++ ("fn".toList ++ ' ' :: m.name) ++
        ('(' :: listed m.params ++ [')']) ++ (' ' :: m.result ++ [' '])))
      (trim (' ' :: m.result ++ [' '])) (!firstParamIsSelf (listed m.params)) = m.method := by
    rw [hsource, hsignature, hreturn, firstParamIsSelf_listed h.params]
    rfl
  exact congrArg (fun method => some (method, rest)) hmethod

/-- A function is balanced if its parts are. -/
theorem balanced_text (h : m.Canonical) : m.text.Balanced never := by
  have hname : m.name.all (isPlain never) = true := all_isPlain_of_isIdentifier h.name fun _ hc => by cases hc
  have hvisibility : (visibility m.isPublic).all (isPlain never) = true := by
    cases m.isPublic with
    | false => rfl
    | true => decide
  have hword : "fn ".toList.all (isPlain never) = true := by decide
  have hspace : [' '].all (isPlain never) = true := by decide
  have hparams : Balanced never ('(' :: listed m.params ++ [')']) :=
    Balanced.bracket rfl rfl (balanced_params h)
  have hbody : Balanced never ('{' :: m.body ++ ['}']) := Balanced.bracket rfl rfl h.body
  have hfront := Balanced.plain_append hvisibility (.plain_append hword (.of_plain hname))
  have hhead := (hfront.append hparams (apart_cons rfl)).append
    (.plain_append hspace h.result.balanced) (apart_cons rfl)
  exact hhead.append (.plain_append hspace hbody) (apart_cons rfl)

/-- The line of a function is read as the method. -/
theorem readsAs_text (h : m.Canonical)
    (hlast : endsWithWord m.result.reverse "error".toList = false) : ReadsAs m.text (.method m.method) := by
  refine ⟨balanced_text h, ?_, ?_⟩
  · intro c hc
    rw [text, List.head?_append_of_ne_nil] at hc
    · exact isBlank_head (trim_signature h) hc
    · rw [signature]
      simp
  · intro rest
    have hread := readMethod?_text h hlast rest
    rw [text_append] at hread ⊢
    exact read_fn m.isPublic _ hread

end MethodLine

end ClassFlattening
