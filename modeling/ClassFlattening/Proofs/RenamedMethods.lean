import ClassFlattening.Proofs.MethodPieces

/-!
# Renaming a function

Renaming leaves a function a function. Its qualifiers and the word that makes it one are no names, so they
stay; its name is renamed if it is the old one; and its parameters, its result and its body are spelt anew,
so that the searches for their ends stop where they did. The signature is cut off behind the result in
both texts, and trimming and renaming it can be done in either order.
-/

namespace ClassFlattening

open Text

section Pieces

variable {old new s t : Text}

/-- A blank is passed in code. -/
theorem Mode.read_of_isBlank {c : Char} (hc : isBlank c = true) (t : Text) :
    Mode.code.read (· == '/') c t = (true, .code) := by
  have hne {d : Char} (hd : isBlank d = false) : (c == d) = false := by
    rw [beq_eq_false_iff_ne]
    rintro rfl
    rw [hc] at hd
    cases hd
  simp [Mode.read, isQuote, hne (d := '"') (by decide), hne (d := '\'') (by decide),
    hne (d := '/') (by decide)]

/-- Qualifiers stay if none of them is the old name. -/
theorem Qualifying.renameFrom_append {words : List Text} {q : Text} (h : Qualifying words q)
    (hwords : ∀ w ∈ words, isIdentifier w = true) (hold : old.IsWord) (hnot : old ∉ words) (t : Text) :
    renameFrom old new .code false 0 (q ++ t) = q ++ renameFrom old new .code false 0 t := by
  induction h with
  | nil => rfl
  | blank hc _ ih =>
    rw [List.cons_append, renameFrom_sign hold (isIdentChar_of_isBlank hc), Mode.read_of_isBlank hc, ih]
    rfl
  | @word w q c hw hc _ ih =>
    have hne : w ≠ old := by
      rintro rfl
      exact hnot hw
    have hword := isWord_of_isIdentifier (hwords w hw)
    have hblank := isIdentChar_of_isBlank hc
    have hrest : startsInWord (c :: (q ++ t)) = false := hblank
    have hcode : Mode.code.behindWord = .code := rfl
    rw [List.append_assoc, List.cons_append, renameFrom_word hold Mode.isProper_code hword hrest,
      if_neg fun h => hne h.2, hcode, renameFrom_sign hold hblank, Mode.read_of_isBlank hc, ih,
      List.append_assoc, List.cons_append]

/-- A text of blanks starts within no word. -/
theorem startsInWord_of_allBlank (ht : t.allBlank = true) : t.startsInWord = false := by
  cases t with
  | nil => rfl
  | cons c t => exact isIdentChar_of_isBlank (List.all_eq_true.1 ht c List.mem_cons_self)

/-- Blanks stay in every mode. -/
theorem renameFrom_blanks (hold : old.IsWord) {mode : Mode} (ht : t.allBlank = true) :
    renameFrom old new mode false 0 t = t := by
  induction t generalizing mode with
  | nil => exact renameFrom_nil old new mode false 0
  | cons c t ih =>
    rw [allBlank, List.all_cons, Bool.and_eq_true] at ht
    rw [renameFrom_sign hold (isIdentChar_of_isBlank ht.1), ih ht.2]

/-- A text that is spelt like a trimmed one is trimmed. -/
theorem Respelled.trim_eq_self (h : Respelled old new s t) (hs : s.trim = s) : t.trim = t := by
  have hstart {old new s t : Text} (h : Respelled old new s t) (hs : s.trimStart = s) :
      t.trimStart = t := by
    cases h with
    | nil => rfl
    | sign _ _ =>
      have hblank := not_isBlank_of_trimStart_eq_cons hs
      exact List.dropWhile_cons_of_neg (by simp [hblank])
    | word _ hw _ _ _ _ => exact hw.trimStart_append _
  have hend : Text.trimStart t.reverse = t.reverse := by
    apply hstart h.reverse
    have hreverse := congrArg List.reverse (trimEnd_eq_self hs)
    rwa [trimEnd, List.reverse_reverse] at hreverse
  rw [Text.trim, hstart h (trimStart_eq_self hs), trimEnd]
  rw [Text.trimStart] at hend
  rw [hend, List.reverse_reverse]

/-- Trimming and renaming can be done in either order. -/
theorem rename_trim (hold : isIdentifier old = true) (hnew : isIdentifier new = true) (t : Text) :
    rename t.trim old new = (rename t old new).trim := by
  have hword := isWord_of_isIdentifier hold
  obtain ⟨front, back, ht, hfront, hback⟩ := exists_blanks t
  have hparted : Parted t.trim back := parted_of_startsInWord (startsInWord_of_allBlank hback)
  have hslash : back.head? ≠ some '/' := by
    intro hhead
    exact absurd (List.all_eq_true.1 hback '/' (List.mem_of_mem_head? hhead)) (by decide)
  have hrespelled := Respelled.renameFrom hword (isWord_of_isIdentifier hnew) Mode.isProper_code t.trim
  have hrename : rename t old new = front ++ rename t.trim old new ++ back := by
    have hqualifying : Qualifying [] front := .of_allBlank hfront
    rw [rename_eq_renameFrom hword, rename_eq_renameFrom hword]
    conv_lhs => rw [ht]
    rw [List.append_assoc, hqualifying.renameFrom_append (by simp) hword List.not_mem_nil,
      renameFrom_append hword Mode.isProper_code hparted fun _ => hslash, renameFrom_blanks hword hback,
      List.append_assoc]
  rw [hrename]
  rw [← rename_eq_renameFrom hword] at hrespelled
  exact (trim_around hfront (hrespelled.trim_eq_self (trim_trim t)) hback).symm

namespace Respelled

theorem afterLeadingWord (h : Respelled old new s t) :
    Respelled old new s.afterLeadingWord t.afterLeadingWord := by
  cases h with
  | nil => exact .nil
  | sign hc rest =>
    rw [Text.afterLeadingWord, Text.afterLeadingWord, List.dropWhile_cons_of_neg (by simp [hc]),
      List.dropWhile_cons_of_neg (by simp [hc])]
    exact .sign hc rest
  | word hv hw _ hs ht rest =>
    rw [hv.afterLeadingWord_append hs, hw.afterLeadingWord_append ht]
    exact rest

/-- A text that is spelt like one in brackets stands in the same brackets. -/
theorem exists_bracketed {opening closing : Char} (h : Respelled old new (opening :: s ++ [closing]) t)
    (hopening : isIdentChar opening = false) (hclosing : isIdentChar closing = false) :
    ∃ s', t = opening :: s' ++ [closing] ∧ Respelled old new s s' := by
  obtain ⟨t', rfl, hrest⟩ := h.exists_of_sign hopening
  obtain ⟨s', u', rfl, hs, hu⟩ := hrest.exists_of_append hclosing
  obtain rfl : u' = [] := List.isEmpty_iff.1 hu.isEmpty_eq.symm
  exact ⟨s', rfl, hs⟩

end Respelled

end Pieces

section Parameters

/-- A parameter is called `self` if that is its first word and a colon follows. -/
theorem dropLead?_self (t : Text) :
    (match t.dropLead? "self".toList with
      | some rest => rest.trimStart.head? == some ':'
      | none => false) =
      (t.leadingWord == "self".toList && t.afterLeadingWord.trimStart.head? == some ':') := by
  have hself : IsWord "self".toList := isWord_of_isIdentifier (by decide)
  have hwhole := leadingWord_append_afterLeadingWord t
  cases hword : t.leadingWord == "self".toList with
  | true =>
    rw [eq_of_beq hword] at hwhole
    rw [dropLead?_eq_some_iff.2 hwhole.symm, Bool.true_and]
  | false =>
    rw [Bool.false_and]
    cases hdrop : t.dropLead? "self".toList with
    | none => rfl
    | some rest =>
      have ht := dropLead?_eq_some_iff.1 hdrop
      rw [beq_eq_false_iff_ne] at hword ⊢
      intro hcolon
      -- A colon behind blanks ends the word, so the word is `self`.
      have hrest : rest.startsInWord = false := by
        cases rest with
        | nil => rfl
        | cons c rest =>
          by_contra hstart
          have hc : isIdentChar c = true := Bool.not_eq_false _ ▸ hstart
          rw [Text.trimStart, List.dropWhile_cons_of_neg (by simp [isBlank_of_isIdentChar hc])] at hcolon
          cases hcolon
          exact absurd hc (by decide)
      rw [ht, hself.leadingWord_append hrest] at hword
      exact hword rfl

/-- The first parameter is the instance in both texts or in neither. -/
theorem Respelled.firstParamIsSelf_eq {old new s t : Text} (h : Respelled old new s t)
    (hold : "self".toList ≠ old) (hnew : "self".toList ≠ new) :
    firstParamIsSelf s = firstParamIsSelf t := by
  have hfirst := h.splitTopLevel_head? (c := ',') (by decide) (by decide)
  rw [firstParamIsSelf, firstParamIsSelf]
  generalize (s.splitTopLevel ',').head? = first, (t.splitTopLevel ',').head? = first' at hfirst ⊢
  cases hfirst with
  | none => rfl
  | @some param param' hparam =>
    have hcolon := hparam.afterLeadingWord.trimStart.head?_beq (c := ':') (by decide)
    have hboth : (param.leadingWord == "self".toList && param.afterLeadingWord.trimStart.head? == some ':') =
        (param'.leadingWord == "self".toList && param'.afterLeadingWord.trimStart.head? == some ':') := by
      rw [hparam.leadingWord_beq hold hnew, hcolon]
    exact (dropLead?_self param).trans (hboth.trans (dropLead?_self param').symm)

end Parameters

/-- The words that the reading of a function looks for. -/
def methodWords : List Text :=
  ["self", "error", "fn", "pub", "inline", "export"].map String.toList

/-- A name that is none of the words is other than each of them. -/
theorem ne_of_mem_methodWords {word name : Text} (hmem : word ∈ methodWords) (hname : name ∉ methodWords) :
    word ≠ name := by
  rintro rfl
  exact hname hmem

namespace MethodPieces

variable {p : MethodPieces} {old new : Text}

/-- Up to the parameters renaming changes the name alone. -/
theorem IsRead.renameFrom_title (h : p.IsRead) (hold : isIdentifier old = true) (hnot : old ∉ methodWords)
    {t : Text} (ht : t.startsInWord = false) :
    renameFrom old new .code false 0 (p.qualifiers ++ (p.title ++ t)) =
      p.qualifiers ++ ("fn".toList ++ (p.gap ++ ((if p.name = old then new else p.name) ++ p.back))) ++
        renameFrom old new .code false 0 t := by
  have hword := isWord_of_isIdentifier hold
  have hfront : Qualifying ["fn".toList, "pub".toList, "inline".toList, "export".toList]
      (p.qualifiers ++ ("fn".toList ++ p.gap)) := by
    obtain ⟨c, blanks, hgap, hc, hblanks⟩ := h.gap
    rw [hgap]
    exact (h.qualifiers.mono fun w hw => List.mem_cons_of_mem _ hw).append
      (.word List.mem_cons_self (isBlank_of_space_or_tab hc) (.of_allBlank hblanks))
  have hback : Qualifying [] p.back := .of_allBlank h.back
  have hstart : startsInWord (p.back ++ t) = false :=
    startsInWord_append (startsInWord_of_allBlank h.back) ht
  have hsub : ∀ w ∈ ["fn".toList, "pub".toList, "inline".toList, "export".toList], w ∈ methodWords := by
    decide
  have hcode : Mode.code.behindWord = .code := rfl
  have hpieces : p.qualifiers ++ (p.title ++ t) =
      p.qualifiers ++ ("fn".toList ++ p.gap) ++ (p.name ++ (p.back ++ t)) := by
    simp only [title, List.append_assoc]
  rw [hpieces, hfront.renameFrom_append (by decide) hword fun hmem => hnot (hsub old hmem),
    renameFrom_word hword Mode.isProper_code (isWord_of_isIdentifier h.name) hstart, hcode,
    hback.renameFrom_append (by simp) hword List.not_mem_nil]
  simp only [true_and, List.append_assoc]

/-- The second pieces are the first with the name renamed and what follows it spelt anew. -/
structure RenamedTo (old new : Text) (p p' : MethodPieces) : Prop where
  qualifiers : p'.qualifiers = p.qualifiers
  gap : p'.gap = p.gap
  name : p'.name = if p.name = old then new else p.name
  back : p'.back = p.back
  head : Respelled old new p.head p'.head
  params : Respelled old new p.params p'.params
  result : Respelled old new p.result p'.result
  body : Respelled old new p.body p'.body

/-- Renaming gives the text of such pieces, up to the body and through it. -/
theorem IsRead.exists_renamedTo (h : p.IsRead) (hold : isIdentifier old = true)
    (hnew : isIdentifier new = true) (hnot : old ∉ methodWords) :
    ∃ p', p.RenamedTo old new p' ∧ rename p.text old new = p'.text ∧
      rename (p.head ++ p.result) old new = p'.head ++ p'.result := by
  have hword := isWord_of_isIdentifier hold
  have hword' := isWord_of_isIdentifier hnew
  have hrespelled {mode : Mode} (hmode : mode.IsProper) (t : Text) :
      Respelled old new t (renameFrom old new mode false 0 t) := .renameFrom hword hword' hmode t
  obtain ⟨params', hparams', hparams⟩ :=
    (hrespelled Mode.isProper_code ('(' :: p.params ++ [')'])).exists_bracketed (by decide) (by decide)
  obtain ⟨body', hbody', hbody⟩ :=
    (hrespelled (Mode.isProper_code.behind (p.head ++ p.result)) ('{' :: p.body ++ ['}'])).exists_bracketed
      (by decide) (by decide)
  let p' : MethodPieces :=
    { p with
      name := if p.name = old then new else p.name
      params := params'
      result := renameFrom old new (Mode.code.behind p.head) false 0 p.result
      body := body' }
  have hhead : renameFrom old new .code false 0 p.head = p'.head := by
    have hstart : startsInWord ('(' :: p.params ++ [')']) = false := (by decide : isIdentChar '(' = false)
    rw [head, List.append_assoc, h.renameFrom_title hold hnot hstart, hparams']
    rfl
  have hfront : renameFrom old new .code false 0 (p.head ++ p.result) = p'.head ++ p'.result := by
    have hslash : p.head.getLast? = some '/' → p.result.head? ≠ some '/' := by
      rw [head, ← List.append_assoc, List.getLast?_concat]
      exact fun hlast => absurd hlast (by decide)
    rw [renameFrom_append hword Mode.isProper_code (parted_head p p.result) hslash, hhead]
  have htext : renameFrom old new .code false 0 p.text = p'.text := by
    have hbrace : Parted (p.head ++ p.result) ('{' :: p.body ++ ['}']) :=
      parted_of_startsInWord (by decide : isIdentChar '{' = false)
    have hslash : ('{' :: p.body ++ ['}']).head? ≠ some '/' := (by decide : some '{' ≠ some '/')
    rw [text, renameFrom_append hword Mode.isProper_code hbrace fun _ => hslash, hfront, hbody']
    rfl
  have hrenamed : p.RenamedTo old new p' :=
    { qualifiers := rfl
      gap := rfl
      name := rfl
      back := rfl
      head := hhead ▸ hrespelled Mode.isProper_code p.head
      params := hparams
      result := hrespelled (Mode.isProper_code.behind p.head) p.result
      body := hbody }
  exact ⟨p', hrenamed, (rename_eq_renameFrom hword _ _).trans htext,
    (rename_eq_renameFrom hword _ _).trans hfront⟩

/-- The reading of a function finds the renamed pieces where it found the first ones. -/
theorem IsRead.renamedTo {p' : MethodPieces} (h : p.IsRead) (hp : p.RenamedTo old new p')
    (hnew : isIdentifier new = true) (hold' : old ∉ methodWords) (hnew' : new ∉ methodWords) :
    p'.IsRead where
  qualifiers := hp.qualifiers ▸ h.qualifiers
  gap := hp.gap ▸ h.gap
  name := by
    rw [hp.name]
    split
    · exact hnew
    · exact h.name
  back := hp.back ▸ h.back
  params _ := hp.params.cutAtMatching?_eq (by decide) (by decide) (by decide) (h.params [])
  result _ := hp.result.opensBody (ne_of_mem_methodWords (by decide) hold')
    (ne_of_mem_methodWords (by decide) hnew') hp.head (parted_head p p.result) (h.result [])
  body _ := hp.body.cutAtMatching?_eq (by decide) (by decide) (by decide) (h.body [])

end MethodPieces

namespace Member

/-- The source of a function is still read as a function, to its end, when a name in it is replaced by
another one and neither is a word that the reading looks for. Its name and its signature are renamed
too, and whether it is static does not change. -/
theorem read_rename_source {t rest old new : Text} {m : Method} (h : Member.read t = (.method m, rest))
    (hold : isIdentifier old = true) (hnew : isIdentifier new = true) (hold' : old ∉ methodWords)
    (hnew' : new ∉ methodWords) :
    ∃ m', Member.read (rename m.source old new) = (.method m', []) ∧ m'.isStatic = m.isStatic ∧
      m'.name = (if m.name = old then new else m.name) ∧
      m'.signature = rename m.signature old new := by
  obtain ⟨p, hp, -, rfl⟩ := read_eq_method_iff.1 h
  obtain ⟨p', hrenamed, htext, hfront⟩ := hp.exists_renamedTo hold hnew hold'
  have hread := (hp.renamedTo hrenamed hnew hold' hnew').read_text []
  rw [List.append_nil, ← htext] at hread
  have hself := hrenamed.params.firstParamIsSelf_eq (ne_of_mem_methodWords (by decide) hold')
    (ne_of_mem_methodWords (by decide) hnew')
  refine ⟨p'.method, hread, congrArg (!·) hself.symm, hrenamed.name, ?_⟩
  change (p'.head ++ p'.result).trim = rename (p.head ++ p.result).trim old new
  rw [rename_trim hold hnew, hfront]

/-- A function whose name stands in its parameters, in the error set of its result and in its body, there
as a word and in a string. -/
def maker : MethodPieces where
  qualifiers := "pub ".toList
  gap := [' ']
  name := "make".toList
  back := []
  params := "self: *make, n: u8".toList
  result := " error{make}!u8 ".toList
  body := " return make(self, \"make\"); ".toList

theorem isRead_maker : maker.IsRead where
  qualifiers := .word (w := "pub".toList) List.mem_cons_self (c := ' ') (by decide) .nil
  gap := ⟨' ', [], rfl, Or.inl rfl, rfl⟩
  name := by decide
  back := rfl
  params _ := (Respelled.refl [] [] _).cutAtMatching?_eq (x := []) (by decide) (by decide) (by decide) rfl
  result rest := by
    have hword : endsWithWord (maker.head ++ " error".toList).reverse "error".toList = true := by decide
    have hbody : OpensBody rest (maker.head ++ " error".toList ++ ('{' :: "make".toList ++ ['}']))
        "!u8 ".toList := .plain rfl (by decide)
    exact .errorSet rfl hword rfl hbody
  body _ := (Respelled.refl [] [] _).cutAtMatching?_eq (x := []) (by decide) (by decide) (by decide) rfl

/-- The function is renamed in its name, its parameters, its error set and its body, and is read again. -/
theorem read_rename_source_maker :
    ∃ m', Member.read (rename maker.text "make".toList "build".toList) = (.method m', []) ∧
      m'.isStatic = false ∧ m'.name = "build".toList ∧
      m'.signature = "pub fn build(self: *build, n: u8) error{build}!u8".toList := by
  have hread := isRead_maker.read_text "\n".toList
  have hold : isIdentifier "make".toList = true := by decide
  have hnew : isIdentifier "build".toList = true := by decide
  obtain ⟨m', hread', hstatic, hname, hsignature⟩ :=
    read_rename_source hread hold hnew (by decide) (by decide)
  have hself : firstParamIsSelf maker.params = true := by decide +kernel
  exact ⟨m', hread', hstatic.trans (congrArg (!·) hself), hname, hsignature.trans rfl⟩

end Member

end ClassFlattening
