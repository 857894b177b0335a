import ClassFlattening.Proofs.ByOffset.Members
import ClassFlattening.Proofs.FieldElements
import ClassFlattening.Proofs.MemberStarts
import ClassFlattening.Proofs.MethodPieces
import ClassFlattening.Proofs.ReadingClasses
import ClassFlattening.Proofs.Remarks

/-!
# Members and what follows them

A member that adds something to its class is read up to an end of its own, so it is settled: it is read alike
whatever follows it. The same holds of comments and of blocks with their braces. What is given up is another
matter: it is left at the end of its line because something was not found behind it, and with another text
behind it may be found. A body is read through up to a place if nothing in front of the place is given up; then
the members in front do not depend on what stands from there on.
-/

namespace ClassFlattening

open Text

section Heads

/-- The characters of a name are code. -/
theorem isCodeChar_of_isIdentifier {name : Text} (h : isIdentifier name = true) :
    ∀ c ∈ name, isCodeChar c = true := fun _ hc =>
  (isPlain_iff.1 (isPlain_of_isIdentChar (isIdentChar_of_mem h hc) rfl : isPlain never _ = true)).1

/-- What stands in front of a function is code. -/
theorem isCodeChar_of_qualifying {words : List Text} {q : Text} (h : Qualifying words q)
    (hwords : ∀ w ∈ words, w.all isCodeChar = true) : ∀ c ∈ q, isCodeChar c = true := by
  induction h with
  | nil => simp
  | blank hc _ ih => exact List.forall_mem_cons.2 ⟨isCodeChar_of_isBlank hc, ih⟩
  | word hw hc _ ih =>
    exact List.forall_mem_append.2
      ⟨List.all_eq_true.1 (hwords _ hw), List.forall_mem_cons.2 ⟨isCodeChar_of_isBlank hc, ih⟩⟩

end Heads

section Bindings

variable {t rest more : Text} {member : Member} {cut : Cut} {c : Char}

/-- What a binding of the parent or the mixins is read as, and what is behind it. -/
def referenceMember (name value : Text) : Member :=
  if name = "mixins".toList then .mixins (readReferences value)
  else if value.isEmpty then .nothing
  else .parent value

/-- What is read of a binding follows from the text in front of its sign of equality and from its value. -/
theorem readReferenceBinding?_eq (t : Text) :
    readReferenceBinding? t =
      (t.cutOnLine? '=').bind fun cut =>
        if bindingName cut.before = "extends".toList ∨ bindingName cut.before = "mixins".toList then
          some (referenceMember (bindingName cut.before) (trim (dropTrailingComment (readBound cut.behind).1)),
            (readBound cut.behind).2)
        else none := by
  rw [readReferenceBinding?, Option.bind_eq_bind]
  congr 1
  funext cut
  dsimp only
  split
  · rw [referenceMember]
    split
    · rfl
    · split
      · rfl
      · rfl
  · rfl

/-- A binding is none of the parent or the mixins exactly if it has another name. -/
theorem readReferenceBinding?_eq_none_iff :
    readReferenceBinding? t = none ↔ ∀ cut ∈ t.cutOnLine? '=',
      ¬(bindingName cut.before = "extends".toList ∨ bindingName cut.before = "mixins".toList) := by
  rw [readReferenceBinding?_eq, Option.bind_eq_none_iff]
  refine forall₂_congr fun cut _ => ?_
  split
  · next hname => exact iff_of_false (by simp) (not_not_intro hname)
  · next hname => exact iff_of_true rfl hname

/-- The value of a binding is in front of the character that ends it. -/
theorem readBound_of_cut (h : t.cutAtTopLevel? endsBinding = some cut) : readBound t = (cut.before, cut.behind) := by
  rw [readBound]
  split
  · next hended =>
    cases h.symm.trans hended
    rfl
  · next hnone => cases h.symm.trans hnone

/-- The value of a binding is the same whatever follows its end. -/
theorem readBound_settled {value : Text} (h : readBound t = (value, rest)) (hrest : rest ≠ []) :
    ∃ c, t = value ++ c :: rest ∧ ∀ more, readBound (value ++ c :: more) = (value, more) := by
  rw [readBound] at h
  split at h
  · next ended hended =>
    obtain ⟨rfl, rfl⟩ := Prod.mk.inj h
    obtain ⟨depth, c, behind, hafter, hstop⟩ := exists_stop_of_cutInCode hended
    have hc : endsBinding c = true := (topLevelVerdict_eq_stop_iff.1 hstop).2
    have hignores : IgnoresWords (topLevelVerdict endsBinding) := by
      apply ignoresWords_topLevelVerdict
      intro d hd
      rw [endsBinding, beq_eq_false_iff_ne.2 (ne_of_isIdentChar hd (by decide)),
        beq_eq_false_iff_ne.2 (ne_of_isIdentChar hd (by decide)),
        beq_eq_false_iff_ne.2 (ne_of_isIdentChar hd (by decide))]
      rfl
    have hline : isLineStart c = false := by
      simp only [endsBinding, Bool.or_eq_true, beq_iff_eq] at hc
      rcases hc with (rfl | rfl) | rfl <;> rfl
    have hwhole := whole_of_cutInCode _ hended
    obtain ⟨before, after⟩ := ended
    dsimp only at hafter
    subst hafter
    subst hwhole
    refine ⟨c, rfl, fun more => ?_⟩
    exact readBound_of_cut ((Respelled.refl [] [] before).cutInCode_eq hignores hline (y := more) hended)
  · obtain ⟨-, hnil⟩ := Prod.mk.inj h
    exact absurd hnil.symm hrest

/-- The search on the first line stops at the first such character of the line. -/
theorem Text.cutOnLine?_eq_some_iff :
    t.cutOnLine? c = some cut ↔
      t = cut.before ++ c :: cut.behind ∧ cut.after = c :: cut.behind ∧ ∀ d ∈ cut.before, d ≠ c ∧ d ≠ '\n' := by
  constructor
  · intro h
    induction t generalizing cut with
    | nil => cases h
    | cons d t ih =>
      rw [cutOnLine?] at h
      rcases cutWhere_cases h with ⟨hstop, rfl⟩ | ⟨⟨⟩, inner, hpass, hinner, rfl⟩
      · have hd : d = c := by
          by_contra hne
          rw [beq_eq_false_iff_ne.2 hne] at hstop
          split at hstop
          · contradiction
          · split at hstop <;> cases hstop
        subst hd
        exact ⟨rfl, rfl, by simp⟩
      · have hd : d ≠ c ∧ d ≠ '\n' := by
          constructor
          · rintro rfl
            simp at hpass
          · rintro rfl
            by_cases hc : '\n' = c
            · subst hc
              simp at hpass
            · simp [hc] at hpass
        obtain ⟨hwhole, hafter, hfront⟩ := ih hinner
        exact ⟨congrArg (d :: ·) hwhole, hafter, List.forall_mem_cons.2 ⟨hd, hfront⟩⟩
  · rintro ⟨hwhole, hafter, hfront⟩
    have hstop : cutOnLine? (c :: cut.behind) c = some ⟨[], c :: cut.behind⟩ := by
      rw [cutOnLine?, cutWhere_cons, beq_self_eq_true]
      rfl
    rw [hwhole, cutOnLine?_append hfront, hstop, Option.map_some, List.append_nil, ← hafter]

/-- The first such character of a text is found on the first line, unless the line ends in front of it. -/
theorem Text.cutOnLine?_of_cutAtFirst? (h : t.cutAtFirst? (· == c) = some cut) :
    t.cutOnLine? c = if '\n' ∈ cut.before then none else some cut := by
  obtain ⟨hwhole, hafter⟩ := eq_of_cutAtFirst? h
  have hfirst : ∀ d ∈ cut.before, d ≠ c := fun d hd => beq_eq_false_iff_ne.1 (forall_of_cutAtFirst? h d hd)
  split
  · next hline =>
    rw [Option.eq_none_iff_forall_ne_some]
    intro other hother
    obtain ⟨hother, -, hfront⟩ := cutOnLine?_eq_some_iff.1 hother
    have hcut := cutAtFirst?_self (p := (· == c)) (t := other.behind)
      (fun d hd => beq_eq_false_iff_ne.2 (hfront d hd).1) (beq_self_eq_true c)
    rw [← hother, h] at hcut
    exact (hfront '\n' (congrArg Cut.before (Option.some.inj hcut) ▸ hline)).2 rfl
  · next hline =>
    refine cutOnLine?_eq_some_iff.2 ⟨hwhole, hafter, fun d hd => ⟨hfirst d hd, ?_⟩⟩
    rintro rfl
    exact hline hd

/-- A character that is not in a text is not on its first line. -/
theorem Text.cutOnLine?_of_cutAtFirst?_eq_none (h : t.cutAtFirst? (· == c) = none) : t.cutOnLine? c = none := by
  rw [Option.eq_none_iff_forall_ne_some]
  intro cut hcut
  have hmem : c ∈ t := by
    rw [(cutOnLine?_eq_some_iff.1 hcut).1]
    simp
  have hnone := forall_of_cutAtFirst?_eq_none h c hmem
  simp at hnone

/-- A binding of the parent or the mixins is read alike whatever follows it. -/
theorem readReferenceBinding?_settled (h : readReferenceBinding? (t ++ rest) = some (member, rest))
    (hrest : rest ≠ []) :
    '=' ∈ t ∧ ∀ more, readReferenceBinding? (t ++ more) = some (member, more) := by
  rw [readReferenceBinding?_eq, Option.bind_eq_some_iff] at h
  obtain ⟨cut, hcut, h⟩ := h
  split at h
  · next hname =>
    obtain ⟨hwhole, -, hfront⟩ := cutOnLine?_eq_some_iff.1 hcut
    rw [Option.some.injEq, Prod.mk.injEq] at h
    obtain ⟨hmember, hbehind⟩ := h
    have hbound : readBound cut.behind = ((readBound cut.behind).1, rest) := by rw [← hbehind]
    obtain ⟨c, hvalue, hread⟩ := readBound_settled hbound hrest
    have ht : t = cut.before ++ '=' :: ((readBound cut.behind).1 ++ [c]) := by
      refine (List.append_left_inj rest).1 ?_
      rw [hwhole]
      conv_lhs => rw [hvalue]
      simp
    refine ⟨by simp [ht], fun more => ?_⟩
    have hcut' : (t ++ more).cutOnLine? '=' =
        some ⟨cut.before, '=' :: ((readBound cut.behind).1 ++ c :: more)⟩ := by
      refine cutOnLine?_eq_some_iff.2 ⟨?_, rfl, hfront⟩
      conv_lhs => rw [ht]
      simp [Cut.behind]
    rw [readReferenceBinding?_eq, hcut', Option.bind_some, if_pos hname]
    simp only [Cut.behind, List.tail_cons] at hread hmember ⊢
    rw [hread, hmember]
  · cases h

/-- What a statement is read as, given the name, the value and the text of it. -/
def statementMember (name value source : Text) : Member :=
  if name = "properties".toList then .properties (readProperties value.trim)
  else if name.isEmpty then .nothing
  else .constant ⟨name, source⟩

/-- What a statement with a sign of equality is read as, if it names neither the parent nor the mixins. -/
theorem readConstant_of_cut {statement : Cut} (hnone : readReferenceBinding? t = none)
    (hstatement : t.cutAtTopLevel? (· == ';') = some statement)
    (hcut : statement.before.cutAtFirst? (· == '=') = some cut) :
    readConstant t =
      (statementMember (bindingName cut.before) cut.behind statement.through, statement.behind) := by
  rw [readConstant, hnone, hstatement]
  simp only [hcut, statementMember]
  split
  · rfl
  · split
    · rfl
    · rfl

/-- A constant that adds something to its class is read alike whatever follows it. -/
theorem readConstant_settled (h : readConstant (t ++ rest) = (member, rest)) (hmember : member ≠ .nothing)
    (hrest : rest ≠ []) : '=' ∈ t ∧ ∀ more, readConstant (t ++ more) = (member, more) := by
  rw [readConstant] at h
  split at h
  · next hread =>
    subst h
    obtain ⟨hsign, hreads⟩ := readReferenceBinding?_settled hread hrest
    exact ⟨hsign, fun more => by rw [readConstant, hreads more]⟩
  · next hnone =>
    split at h
    · exact absurd (Prod.mk.inj h).1.symm hmember
    · next statement hstatement =>
      split at h
      · exact absurd (Prod.mk.inj h).1.symm hmember
      · next cut hcut =>
        have hread := readConstant_of_cut hnone hstatement hcut
        rw [readConstant, hnone, hstatement] at hread
        simp only [hcut] at h hread
        rw [hread] at h
        obtain ⟨hstatement', hbehind⟩ := Prod.mk.inj h
        obtain ⟨hwhole, hpass⟩ := passable_of_cutAtTopLevel? rfl (by decide) hstatement
        have ht : t = statement.before ++ [';'] := by
          refine (List.append_left_inj rest).1 ?_
          rw [hwhole, hbehind]
          simp
        obtain ⟨hcutWhole, -⟩ := eq_of_cutAtFirst? hcut
        have hfirst (more : Text) : (t ++ more).cutAtFirst? (· == '=') =
            some ⟨cut.before, cut.after ++ (';' :: more)⟩ := by
          rw [ht, List.append_assoc]
          exact cutAtFirst?_append_of_some hcut _
        have hend (more : Text) : (t ++ more).cutAtTopLevel? (· == ';') = some ⟨statement.before, ';' :: more⟩ := by
          rw [ht, List.append_assoc]
          exact (cutAtTopLevel?_eq_iff (by simp) rfl (by decide) more).2 hpass
        have hthrough : statement.through = statement.before ++ [';'] := by
          rw [Option.some.inj (hstatement.symm.trans (hend rest))]
          rfl
        refine ⟨by rw [ht, hcutWhole]; simp, fun more => ?_⟩
        have hnone' : readReferenceBinding? (t ++ more) = none := by
          rw [readReferenceBinding?_eq_none_iff, cutOnLine?_of_cutAtFirst? (hfirst _)] at hnone ⊢
          split
          · simp
          · next hline =>
            rw [if_neg hline] at hnone
            intro other hother
            cases hother
            exact hnone ⟨cut.before, cut.after ++ ';' :: rest⟩ rfl
        rw [readConstant_of_cut hnone' (hend more) hcut, ← hstatement', hthrough]
        rfl

/-- A field that adds something to its class is read alike whatever follows it. -/
theorem readField_settled (h : readField (t ++ rest) = (member, rest)) (hmember : member ≠ .nothing)
    (hrest : rest ≠ []) : ':' ∈ t ∧ ∀ more, readField (t ++ more) = (member, more) := by
  cases hcut : (cutElement (t ++ rest)).1.dropTrailingComment.cutAtFirst? (· == ':') with
  | none =>
    rw [readField_of_cut_none hcut] at h
    exact absurd (Prod.mk.inj h).1.symm hmember
  | some cut =>
    have hread := readField_of_cut hcut
    rw [h] at hread
    split at hread
    · exact absurd (Prod.mk.inj hread).1 hmember
    · next hname =>
      obtain ⟨hfield, hbehind⟩ := Prod.mk.inj hread
      rw [cutElement] at hcut hbehind
      cases hcomma : (t ++ rest).cutAtTopLevel? (· == ',') with
      | none =>
        rw [hcomma] at hbehind
        exact absurd hbehind hrest
      | some ended =>
        rw [hcomma] at hcut hbehind
        dsimp only at hcut hbehind
        obtain ⟨hwhole, hpass⟩ := passable_of_cutAtTopLevel? rfl (by decide) hcomma
        have ht : t = ended.before ++ [','] := by
          refine (List.append_left_inj rest).1 ?_
          rw [hwhole, ← hbehind]
          simp
        have hcolon : ':' ∈ ended.before := by
          obtain ⟨comment, hcomment, -⟩ := ended.before.exists_comment
          rw [hcomment, (eq_of_cutAtFirst? hcut).1]
          simp
        refine ⟨by rw [ht]; exact List.mem_append_left _ hcolon, fun more => ?_⟩
        have helement : cutElement (t ++ more) = (ended.before, more) := by
          rw [ht, List.append_assoc]
          exact cutElement_of_passable hpass more
        have hcut' : (cutElement (t ++ more)).1.dropTrailingComment.cutAtFirst? (· == ':') = some cut := by
          rwa [helement]
        rw [readField_of_cut hcut', if_neg hname, helement, hfield]

end Bindings

section Settled

variable {t rest note : Text} {member : Member}

/-- What a member starts like does not depend on what follows a sign in it. -/
theorem startOf_append_of_mem {c : Char} (hmem : c ∈ t) (hc : isIdentChar c = false) (hblank : isBlank c = false)
    (hslash : c ≠ '/') (rest more : Text) : startOf (t ++ rest) = startOf (t ++ more) := by
  obtain ⟨front, back, rfl⟩ := List.append_of_mem hmem
  rw [List.append_assoc, List.append_assoc]
  exact startOf_append_cons hc hblank hslash front _ _

/-- A member that adds something to its class is read alike whatever follows it. -/
theorem read_settled (h : Member.read (t ++ rest) = (member, rest)) (hmember : member ≠ .nothing)
    (hrest : rest ≠ []) (more : Text) : Member.read (t ++ more) = (member, more) := by
  have hread := h
  rw [Member.read_eq_start] at hread
  cases hstart : startOf (t ++ rest) with
  | comment =>
    rw [hstart] at hread
    exact absurd (Prod.mk.inj hread).1.symm hmember
  | block =>
    rw [hstart] at hread
    exact absurd (Prod.mk.inj hread).1.symm hmember
  | function =>
    rw [hstart, Start.read] at hread
    split at hread
    · obtain ⟨rfl, -⟩ := Prod.mk.inj hread
      obtain ⟨p, hp, htext, rfl⟩ := Member.read_eq_method_iff.1 h
      rw [List.append_cancel_right htext]
      exact hp.read_text more
    · exact absurd (Prod.mk.inj hread).1.symm hmember
  | binding =>
    rw [hstart] at hread
    obtain ⟨hsign, hmore⟩ := readConstant_settled hread hmember hrest
    rw [Member.read_eq_start, startOf_append_of_mem hsign (by decide) (by decide) (by decide) more rest, hstart]
    exact hmore more
  | field =>
    rw [hstart] at hread
    obtain ⟨hsign, hmore⟩ := readField_settled hread hmember hrest
    rw [Member.read_eq_start, startOf_append_of_mem hsign (by decide) (by decide) (by decide) more rest, hstart]
    exact hmore more

/-- A comment is settled. -/
theorem settled_remark (hnote : '\n' ∉ note) : Settled (remark note) .nothing where
  head := by
    intro c hc
    cases hc
    decide
  read := by
    intro rest
    have hfront : ∀ c ∈ "//".toList ++ note, (c == '\n') = false := by
      intro c hc
      rw [beq_eq_false_iff_ne]
      rintro rfl
      rcases List.mem_append.1 hc with hc | hc
      · exact absurd hc (by decide)
      · exact hnote hc
    have hline : (remark note ++ rest).cutLine.after = rest := by
      have hwhole : remark note ++ rest = ("//".toList ++ note) ++ '\n' :: rest := by simp [remark]
      rw [hwhole, cutLine, cutAtFirst?_self hfront rfl]
      rfl
    have hstart : startOf (remark note ++ rest) = .comment := by
      rw [startOf]
      exact if_pos rfl
    rw [Member.read_eq_start, hstart, Start.read, hline]

/-- A block with its braces is settled. -/
theorem settled_block {title inner : Text} (hstart : startOf (title ++ ['{']) = .block) (htitle : '{' ∉ title)
    (hhead : ∀ c ∈ title.head?, isBlank c = false)
    (hinner : cutAtMatching? ('{' :: inner ++ ['}']) '{' '}' = some ⟨'{' :: inner, ['}']⟩) :
    Settled (title ++ '{' :: (inner ++ ['}'])) .nothing where
  head := by
    intro c hc
    cases title with
    | nil =>
      cases hc
      decide
    | cons d title => exact hhead c hc
  read := by
    intro rest
    have hbrace : ∀ c ∈ title, (c == '{') = false := by
      intro c hc
      rw [beq_eq_false_iff_ne]
      rintro rfl
      exact htitle hc
    have hclosed : cutAtMatching? ('{' :: inner ++ '}' :: rest) '{' '}' = some ⟨'{' :: inner, '}' :: rest⟩ :=
      (Respelled.refl [] [] inner).cutAtMatching?_eq (by decide) (by decide) (by decide) hinner
    have hwhole : title ++ '{' :: (inner ++ ['}']) ++ rest = title ++ '{' :: (inner ++ '}' :: rest) := by simp
    rw [hwhole, Member.read_eq_start, startOf_append_cons (by decide) (by decide) (by decide) title _ [], hstart,
      Start.read, dropBlock, cutAtFirst?_self hbrace rfl]
    rw [List.cons_append] at hclosed
    simp only [hclosed]
    rfl

end Settled

/-- Whether what starts a text is read to an end of its own: it adds something to its class, is a comment, or is
a block with its braces. -/
def EndsItself (t : Text) : Prop :=
  (Member.read t).1 ≠ .nothing ∨ startOf t = .comment ∨
    startOf t = .block ∧ ∃ opened ∈ t.cutAtFirst? (· == '{'), (opened.after.cutAtMatching? '{' '}').isSome

/-- Reading a body comes to a rest of it, behind members that are read to ends of their own. -/
inductive WalksTo (rest : Text) : Text → List Member → Prop
  | here {body : Text} (h : body.trimStart = rest) : WalksTo rest body []
  | step {body t : Text} {members : List Member} (h : body.trimStart = t) (hne : t ≠ []) (hends : EndsItself t)
      (behind : WalksTo rest (Member.read t).2 members) : WalksTo rest body ((Member.read t).1 :: members)

section WalksTo

variable {body front t rest : Text} {members : List Member}

/-- A comment starts with two slashes. -/
theorem isPrefixOf_of_startOf_comment (h : startOf t = .comment) : "//".toList.isPrefixOf t = true := by
  by_contra hnot
  rw [startOf, if_neg hnot] at h
  split at h
  · cases h
  · split at h
    · cases h
    · split at h <;> cases h

/-- A comment that goes on to the end of its line, and no further, is settled. -/
theorem settled_of_comment {v : Text} (hread : (t ++ v).cutLine.after = v) (hv : v ≠ [])
    (hcomment : startOf (t ++ v) = .comment) : Settled t .nothing := by
  have hslashes := isPrefixOf_of_startOf_comment hcomment
  rw [cutLine] at hread
  split at hread
  · next cut hcut =>
    obtain ⟨hwhole, -⟩ := eq_of_cutAtFirst? hcut
    have ht : t = cut.before ++ ['\n'] := by
      refine (List.append_left_inj v).1 ?_
      rw [hwhole, show cut.behind = v from hread]
      simp
    rw [hwhole, isPrefixOf_append_cons (by decide), List.isPrefixOf_iff_prefix] at hslashes
    obtain ⟨note, hnote⟩ := hslashes
    have hline : '\n' ∉ note := by
      intro hmem
      have hnone := forall_of_cutAtFirst? hcut '\n' (by rw [← hnote]; exact List.mem_append_right _ hmem)
      simp at hnone
    have hremark : t = remark note := by rw [ht, ← hnote, remark, List.append_assoc]
    rw [hremark]
    exact settled_remark hline
  · exact absurd hread.symm hv

/-- A block that goes on to the brace that closes it, and no further, is settled. -/
theorem settled_of_block {v : Text} {opened : Cut} (hread : dropBlock (t ++ v) = v)
    (hblock : startOf (t ++ v) = .block) (hopened : (t ++ v).cutAtFirst? (· == '{') = some opened)
    (hclosed : (opened.after.cutAtMatching? '{' '}').isSome) (hhead : ∀ c ∈ t.head?, isBlank c = false) :
    Settled t .nothing := by
  obtain ⟨closed, hclosed⟩ := Option.isSome_iff_exists.1 hclosed
  obtain ⟨hwhole, hafter⟩ := eq_of_cutAtFirst? hopened
  obtain ⟨inner, behind, hopen, rfl, hinner⟩ :=
    MethodPieces.exists_inner_of_cutAtMatching? (by decide) (by decide) (by decide) (by decide) hclosed
  rw [dropBlock, hopened] at hread
  simp only [hclosed] at hread
  obtain rfl : behind = v := hread
  have ht : t = opened.before ++ '{' :: (inner ++ ['}']) := by
    refine (List.append_left_inj behind).1 ?_
    rw [hwhole, ← hafter, hopen]
    simp
  have htitle : '{' ∉ opened.before := by
    intro hmem
    have hnone := forall_of_cutAtFirst? hopened '{' hmem
    simp at hnone
  have hstart : startOf (opened.before ++ ['{']) = .block := by
    rw [← hblock, hwhole]
    exact startOf_append_cons (by decide) (by decide) (by decide) _ _ _
  have hhead' : ∀ c ∈ opened.before.head?, isBlank c = false := by
    intro c hc
    apply hhead c
    rw [ht]
    exact List.mem_head?_append_of_mem_head? hc
  rw [ht]
  exact settled_block hstart htitle hhead' (hinner [])

/-- What is read to an end of its own is settled. -/
theorem settled_of_endsItself {v : Text} (hread : (Member.read (t ++ v)).2 = v) (hv : v ≠ [])
    (hends : EndsItself (t ++ v)) (hhead : ∀ c ∈ t.head?, isBlank c = false) :
    Settled t (Member.read (t ++ v)).1 := by
  have hsettled : Member.read (t ++ v) = ((Member.read (t ++ v)).1, v) := Prod.ext rfl hread
  rcases hends with hadds | hcomment | ⟨hblock, opened, hopened, hclosed⟩
  · exact ⟨hhead, read_settled hsettled hadds hv⟩
  · rw [Member.read_eq_start, hcomment] at hread ⊢
    exact settled_of_comment hread hv hcomment
  · rw [Member.read_eq_start, hblock] at hread ⊢
    exact settled_of_block hread hblock hopened hclosed hhead

/-- A place that is reached is a rest of the body. -/
theorem WalksTo.suffix (h : WalksTo rest body members) : rest <:+ body := by
  induction h with
  | here h =>
    rw [← h]
    exact List.dropWhile_suffix _
  | step h _ _ _ ih =>
    exact ih.trans ((ByOffset.read_suffix _).trans (h ▸ List.dropWhile_suffix _))

/-- What stands at a place that is reached starts with no blank. -/
theorem WalksTo.head (h : WalksTo rest body members) : ∀ c ∈ rest.head?, isBlank c = false := by
  induction h with
  | here h =>
    intro c hc
    obtain ⟨more, rfl⟩ := List.head?_eq_some_iff.1 hc
    exact not_isBlank_of_trimStart_eq_cons h
  | step _ _ _ _ ih => exact ih

/-- The members in front of a place that is reached do not depend on what stands from there on. -/
theorem WalksTo.readAll (h : WalksTo rest (front ++ rest) members) (hrest : rest ≠ []) (t : Text) :
    Member.readAll (front ++ t) = members ++ Member.readAll t := by
  generalize hbody : front ++ rest = body at h
  induction h generalizing front with
  | @here body h =>
    -- What trimming takes off is all that is in front of the place.
    have hwhole : body.takeWhile isBlank ++ body.trimStart = body := List.takeWhile_append_dropWhile
    rw [h, ← hbody] at hwhole
    have hfront : front.allBlank = true := by
      rw [← List.append_cancel_right hwhole]
      exact List.all_takeWhile
    rw [Member.readAll_eq, trimStart_append hfront, List.nil_append, Member.readAll_eq t]
  | @step body u members h hne hends behind ih =>
    obtain ⟨gap, hgap⟩ := behind.suffix
    obtain ⟨w, hw⟩ := ByOffset.read_suffix u
    have hwhole : body.takeWhile isBlank ++ body.trimStart = body := List.takeWhile_append_dropWhile
    rw [h, ← hw, ← hgap, ← hbody, ← List.append_assoc w, ← List.append_assoc] at hwhole
    have hhead : ∀ c ∈ w.head?, isBlank c = false := by
      intro c hc
      obtain ⟨more, rfl⟩ := List.head?_eq_some_iff.1 hc
      exact not_isBlank_of_trimStart_eq_cons (h.trans hw.symm)
    have hsettled : Settled w (Member.read u).1 := by
      have hv : gap ++ rest ≠ [] := List.append_ne_nil_of_right_ne_nil gap hrest
      rw [← hgap] at hw
      rw [← hw] at hgap hends ⊢
      exact settled_of_endsItself hgap.symm hv hends hhead
    rw [← List.append_cancel_right hwhole, List.append_assoc, List.append_assoc,
      hsettled.readAll_append List.all_takeWhile, ih hgap, List.cons_append]

end WalksTo

end ClassFlattening
