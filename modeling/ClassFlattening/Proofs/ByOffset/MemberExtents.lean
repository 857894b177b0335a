import ClassFlattening.Declaration
import ClassFlattening.Proofs.ByOffset.Members

/-!
# What members take of a class body

A member takes the stretch of a class body from the offset at which it is read to the offset behind it. A
function and a constant keep just that stretch as their source; the other members keep none of it as it was
written. The stretch has at least one byte and ends between two characters of the body, whatever the body
holds, so the walk over the body goes on behind it: no two members share text, and there are no more
members than bytes.
-/

namespace ClassFlattening

/-- The text of the body that a member keeps as it was written. -/
def Member.source? : Member → Option Text
  | method m => some m.source
  | constant k => some k.source
  | _ => none

/-- What a reader returns for a text: if the member keeps any of the text, all that is in front of the text
behind it. -/
def KeepsAll (t : Text) (read : Member × Text) : Prop :=
  ∀ source, read.1.source? = some source → source ++ read.2 = t

section Sources

open Text

variable {t rest : Text} {member : Member}

theorem keepsAll_of_source?_eq_none (h : member.source? = none) (t rest : Text) :
    KeepsAll t (member, rest) := by
  intro source hsource
  rw [h] at hsource
  cases hsource

/-- A function keeps the text through the brace that closes its body. -/
theorem keepsAll_of_readMethod? {m : Method} (h : readMethod? t = some (m, rest)) :
    KeepsAll t (.method m, rest) := by
  rintro _ ⟨⟩
  simp only [readMethod?, Option.bind_eq_bind, Option.bind_eq_some_iff] at h
  obtain ⟨qualified, hqualified, named, hnamed, h⟩ := h
  split at h
  · simp only [Option.bind_eq_some_iff] at h
    obtain ⟨params, hparams, result, hresult, body, hbody, h⟩ := h
    cases h
    obtain ⟨ht, -⟩ := ByOffset.head_append_behind hqualified hnamed hparams
    have hresult := whole_of_cutAtBodyOpen? hresult
    have hbody := whole_of_cutAtMatching? hbody
    dsimp only
    rw [List.append_assoc, body.through_append_behind, hbody, List.append_assoc, ← Cut.whole, hresult, ht]
  · cases h

/-- The binding that names the parent or the mixins keeps no text. -/
theorem source?_of_readReferenceBinding? (h : readReferenceBinding? t = some (member, rest)) :
    member.source? = none := by
  simp only [readReferenceBinding?, Option.bind_eq_bind, Option.bind_eq_some_iff] at h
  obtain ⟨cut, -, h⟩ := h
  split at h
  · split at h
    · cases h
      rfl
    · split at h
      · cases h
        rfl
      · cases h
        rfl
  · cases h

/-- A constant keeps the text through its semicolon. -/
theorem keepsAll_readConstant (t : Text) : KeepsAll t (readConstant t) := by
  rw [readConstant]
  split
  · next read hread => exact keepsAll_of_source?_eq_none (source?_of_readReferenceBinding? hread) _ _
  · split
    · exact keepsAll_of_source?_eq_none rfl _ _
    · next statement hstatement =>
      split
      · exact keepsAll_of_source?_eq_none rfl _ _
      · dsimp only
        split
        · exact keepsAll_of_source?_eq_none rfl _ _
        · split
          · exact keepsAll_of_source?_eq_none rfl _ _
          · rintro _ ⟨⟩
            exact statement.through_append_behind.trans (whole_of_cutInCode _ hstatement)

theorem source?_fieldMember (name type : Text) (value : Option Text) :
    (fieldMember name type value).source? = none := by
  rw [fieldMember]
  split
  · rfl
  · split
    · rfl
    · split
      · rfl
      · rfl

/-- A field keeps no text as it was written. -/
theorem keepsAll_readField (t : Text) : KeepsAll t (readField t) := by
  obtain ⟨element, rest, -, -, hread⟩ := ByOffset.fieldElement_eq (List.suffix_refl t)
  rw [hread]
  split
  · exact keepsAll_of_source?_eq_none rfl _ _
  · split
    · exact keepsAll_of_source?_eq_none rfl _ _
    · split
      · exact keepsAll_of_source?_eq_none (source?_fieldMember _ _ _) _ _
      · exact keepsAll_of_source?_eq_none (source?_fieldMember _ _ _) _ _

/-- What a member keeps is all the text in front of what is left behind it. -/
theorem keepsAll_read (t : Text) : KeepsAll t (Member.read t) := by
  rw [Member.read]
  split
  · exact keepsAll_of_source?_eq_none rfl _ _
  · split
    · split
      · next hmethod => exact keepsAll_of_readMethod? hmethod
      · exact keepsAll_of_source?_eq_none rfl _ _
    · split
      · exact keepsAll_of_source?_eq_none rfl _ _
      · split
        · exact keepsAll_readConstant t
        · exact keepsAll_readField t

end Sources

namespace ByOffset

open Text

/-- A member and the offsets between which it is read. -/
structure Extent where
  member : Member
  span : Span

/-- An extent is a stretch of the body. It has at least one byte, it starts and stops between two characters,
and a member that keeps its text keeps exactly the stretch. -/
structure Extent.LiesIn (extent : Extent) (body : Text) : Prop where
  start_lt_stop : extent.span.start < extent.span.stop
  stop_le_size : extent.span.stop ≤ body.size
  cut_start : (body.cutAt? extent.span.start).isSome
  cut_stop : (body.cutAt? extent.span.stop).isSome
  source_eq : ∀ source, extent.member.source? = some source →
    body.between? extent.span.start extent.span.stop = some source

/-- The members that the walk over a body reads from an offset on, one a round. A round passes the blanks,
and unless the body ends there it reads a member and goes on behind it, or one byte further. -/
inductive IsMemberWalk (body : Text) : Nat → List Extent → Prop
  | finished {cursor start : Nat} (hskip : skipBlanks body cursor = pure start) (hend : body.size ≤ start) :
      IsMemberWalk body cursor []
  | round {cursor start stop : Nat} {member : Member} {extents : List Extent}
      (hskip : skipBlanks body cursor = pure start) (hstart : start < body.size)
      (hread : readMember body start = pure (member, stop))
      (htail : IsMemberWalk body (max stop (start + 1)) extents) :
      IsMemberWalk body cursor (⟨member, ⟨start, stop⟩⟩ :: extents)

section Extents

variable {body t : Text} {cursor : Nat} {extents : List Extent}

/-- A program over offsets has at most one result. -/
theorem pure_injective {α : Type} : Function.Injective (pure : α → Steps α) := by
  intro a b h
  exact Except.ok.inj (Option.some.inj h)

/-- A text can be cut where a rest of it starts. -/
theorem isSome_cutAt?_offsetOf (h : t <:+ body) : (body.cutAt? (body.offsetOf t)).isSome := by
  obtain ⟨front, rfl⟩ := h
  rw [offsetOf_append, cutAt?_append]
  rfl

/-- The member at the start of a rest of the body lies in the body. -/
theorem liesIn_read (h : t <:+ body) (hne : t ≠ []) :
    Extent.LiesIn ⟨(Member.read t).1, ⟨body.offsetOf t, body.offsetOf (Member.read t).2⟩⟩ body where
  start_lt_stop := offsetOf_lt_offsetOf (read_suffix t) (Member.length_read_lt hne) h
  stop_le_size := offsetOf_le _ _
  cut_start := isSome_cutAt?_offsetOf h
  cut_stop := isSome_cutAt?_offsetOf ((read_suffix t).trans h)
  source_eq := by
    intro source hsource
    have ht := keepsAll_read t source hsource
    obtain ⟨front, rfl⟩ := h
    dsimp only
    generalize (Member.read t).2 = rest at ht ⊢
    subst ht
    rw [offsetOf_append, ← List.append_assoc, offsetOf_append, size_append]
    exact between?_append front source rest

/-- Reading a member makes no misstep at any offset between two characters, and takes an extent of the body. -/
theorem exists_readMember {start : Nat} (hcut : (body.cutAt? start).isSome) (hstart : start < body.size) :
    ∃ member stop, readMember body start = pure (member, stop) ∧
      Extent.LiesIn ⟨member, ⟨start, stop⟩⟩ body := by
  obtain ⟨cut, hcut⟩ := Option.isSome_iff_exists.1 hcut
  obtain ⟨hwhole, rfl⟩ := cutAt?_eq_some_iff.1 hcut
  have hafter := suffix_of_cut hwhole
  have hne : cut.after ≠ [] := by
    intro hnil
    rw [← hwhole, Cut.whole, hnil, List.append_nil] at hstart
    exact Nat.lt_irrefl _ hstart
  rw [← offsetOf_after hwhole]
  exact ⟨_, _, readMember_eq hafter, liesIn_read hafter hne⟩

/-- The walk over a rest of a body reads the members of the rest. -/
theorem exists_isMemberWalk (h : t <:+ body) :
    ∃ extents, IsMemberWalk body (body.offsetOf t) extents ∧ extents.map Extent.member = Member.readAll t := by
  fun_induction Member.readAll t with
  | case1 t hblank =>
    refine ⟨[], .finished (skipBlanks_eq h) ?_, rfl⟩
    rw [hblank, offsetOf_nil]
  | case2 t c rest htrim read ih =>
    have hsuffix : c :: rest <:+ body := by
      rw [← htrim]
      exact (List.dropWhile_suffix _).trans h
    have hskip := skipBlanks_eq h
    rw [htrim] at hskip
    obtain ⟨extents, hwalk, hmembers⟩ := ih ((read_suffix _).trans hsuffix)
    have hlt : body.offsetOf (c :: rest) < body.offsetOf read.2 :=
      (liesIn_read hsuffix (List.cons_ne_nil c rest)).start_lt_stop
    rw [← Nat.max_eq_left hlt] at hwalk
    exact ⟨_, .round hskip (offsetOf_lt hsuffix) (readMember_eq hsuffix) hwalk, congrArg (_ :: ·) hmembers⟩

namespace IsMemberWalk

/-- The rounds of the walk are those of the program. -/
theorem readMembers_eq (h : IsMemberWalk body cursor extents) :
    Source.readMembers body cursor = pure (extents.map Extent.member) := by
  induction h with
  | finished hskip hend => rw [Source.readMembers, hskip, pure_bind, if_pos hend]; rfl
  | round hskip hstart hread _ ih =>
    rw [Source.readMembers, hskip, pure_bind, if_neg (Nat.not_le.2 hstart), hread, pure_bind]
    dsimp only
    rw [ih, pure_bind, List.map_cons]

/-- One round of the walk from the start of a rest: the member lies in the body at or behind the start of the
rest, and the walk goes on where the member stops, which is the start of a rest again. -/
theorem round_spec {start stop : Nat} {member : Member} (ht : t <:+ body)
    (hskip : skipBlanks body (body.offsetOf t) = pure start) (hstart : start < body.size)
    (hread : readMember body start = pure (member, stop)) :
    body.offsetOf t ≤ start ∧ Extent.LiesIn ⟨member, ⟨start, stop⟩⟩ body ∧
      ∃ rest, rest <:+ body ∧ body.offsetOf rest = stop := by
  have htrim : t.trimStart <:+ t := List.dropWhile_suffix _
  have hsuffix := htrim.trans ht
  obtain rfl := pure_injective ((skipBlanks_eq ht).symm.trans hskip)
  obtain ⟨rfl, rfl⟩ := Prod.mk.inj (pure_injective ((readMember_eq hsuffix).symm.trans hread))
  have hne : t.trimStart ≠ [] := by
    intro hnil
    rw [hnil, offsetOf_nil] at hstart
    exact Nat.lt_irrefl _ hstart
  refine ⟨?_, liesIn_read hsuffix hne, _, (read_suffix _).trans hsuffix, rfl⟩
  obtain ⟨front, hfront⟩ := htrim
  rw [← hfront] at ht
  rw [← offsetOf_add ht, hfront]
  exact Nat.le_add_right _ _

/-- The members of a walk lie in the body, each behind the one before, and take a byte each. The induction is
on the rounds; the cursor stays at the start of a rest of the body. -/
theorem extents_apart (h : IsMemberWalk body cursor extents) (ht : t <:+ body)
    (hcursor : body.offsetOf t = cursor) :
    (∀ e ∈ extents, cursor ≤ e.span.start ∧ e.LiesIn body) ∧
      extents.Pairwise (fun e f => e.span.stop ≤ f.span.start) ∧ cursor + extents.length ≤ body.size := by
  induction h generalizing t with
  | finished hskip hend =>
    subst hcursor
    exact ⟨by simp, .nil, offsetOf_le _ _⟩
  | @round cursor start stop member extents hskip hstart hread _ ih =>
    subst hcursor
    obtain ⟨hle, hlies, rest, hrest, hstop⟩ := round_spec ht hskip hstart hread
    have hlt : start < stop := hlies.start_lt_stop
    rw [Nat.max_eq_left hlt] at ih
    obtain ⟨hmem, hpairwise, hlength⟩ := ih hrest hstop
    refine ⟨fun e he => ?_, List.pairwise_cons.2 ⟨fun e he => (hmem e he).1, hpairwise⟩, ?_⟩
    · rcases List.mem_cons.1 he with rfl | he
      · exact ⟨hle, hlies⟩
      · obtain ⟨hafter, he⟩ := hmem e he
        exact ⟨by omega, he⟩
    · rw [List.length_cons]
      omega

end IsMemberWalk

/-- In every body and at every offset between two of its characters a member is read that takes at least one
byte, stops between two characters and keeps, if it is a function or a constant, exactly what it takes. So the
walk over a body ends after at most one round a byte. No two of the members that it reads share text, each
stops in front of the next, and the functions and constants of a class that is declared with the body are
those of the walk, in order. -/
theorem members_apart (body : Text) :
    (∀ start, (body.cutAt? start).isSome → start < body.size → ∃ member stop,
        readMember body start = pure (member, stop) ∧ Extent.LiesIn ⟨member, ⟨start, stop⟩⟩ body) ∧
      ∃ extents, IsMemberWalk body 0 extents ∧
        Source.readMembers body 0 = pure (extents.map Extent.member) ∧ extents.length ≤ body.size ∧
        (∀ e ∈ extents, e.LiesIn body) ∧ extents.Pairwise (fun e f => e.span.stop ≤ f.span.start) ∧
        ∀ (site : Site) (file : Text) (c : Class), site.body = body → site.class? file = some c →
          c.methods = extents.filterMap (fun e => e.member.method?) ∧
            c.constants = extents.filterMap fun e => e.member.constant? := by
  refine ⟨fun start => exists_readMember, ?_⟩
  obtain ⟨extents, hwalk, hmembers⟩ := exists_isMemberWalk (List.suffix_refl body)
  rw [offsetOf_self] at hwalk
  obtain ⟨hmem, hpairwise, hlength⟩ := hwalk.extents_apart (List.suffix_refl body) (offsetOf_self body)
  refine ⟨extents, hwalk, hwalk.readMembers_eq, by omega, fun e he => (hmem e he).2, hpairwise, ?_⟩
  rintro site file c rfl hclass
  obtain ⟨name, visibility, rfl⟩ := Site.eq_of_class? hclass
  rw [Class.withMembers, ← hmembers]
  exact ⟨List.filterMap_map, List.filterMap_map⟩

/-- A class body with a character of two bytes, text of no kind and a function whose parameters are never closed. -/
def kettleBody : Text := "é: u8,\nconst K = 1; ?\nfn boil() void \x7b\x7d fn pour(".toList

/-- A declaration with that body. -/
def kettle : Site := ⟨.empty, "const Kettle = ".toList, "zoop.class(struct ".toList, kettleBody, "\x7d);".toList, []⟩

/-- In that body a member is read at the constant, and the function and the constant of the class lie apart. -/
theorem members_apart_kettle :
    (kettleBody.cutAt? 8).isSome ∧ 8 < kettleBody.size ∧
      (∃ member stop, readMember kettleBody 8 = pure (member, stop) ∧
        Extent.LiesIn ⟨member, ⟨8, stop⟩⟩ kettleBody) ∧
      ∃ extents c, IsMemberWalk kettleBody 0 extents ∧ extents.length ≤ kettleBody.size ∧
        (∀ e ∈ extents, e.LiesIn kettleBody) ∧ extents.Pairwise (fun e f => e.span.stop ≤ f.span.start) ∧
        kettle.class? "m.zig".toList = some c ∧ c.methods = extents.filterMap (fun e => e.member.method?) ∧
        c.constants = extents.filterMap (fun e => e.member.constant?) ∧
        c.methods.map Method.source = ["fn boil() void \x7b\x7d".toList] ∧
        c.constants.map Constant.source = ["const K = 1;".toList] := by
  have hcut : (kettleBody.cutAt? 8).isSome := by decide +kernel
  have hsize : 8 < kettleBody.size := by decide +kernel
  obtain ⟨hread, extents, hwalk, -, hlength, hlies, hapart, hclass⟩ := members_apart kettleBody
  obtain ⟨c, hc⟩ : ∃ c, kettle.class? "m.zig".toList = some c := Option.isSome_iff_exists.1 (by decide +kernel)
  have hsources : (kettle.class? "m.zig".toList).map
      (fun c => (c.methods.map Method.source, c.constants.map Constant.source)) =
        some (["fn boil() void \x7b\x7d".toList], ["const K = 1;".toList]) := by decide +kernel
  obtain ⟨hmethods, hconstants⟩ := hclass kettle _ c rfl hc
  rw [hc] at hsources
  obtain ⟨hfunctions, hvalues⟩ := Prod.mk.inj (Option.some.inj hsources)
  exact ⟨hcut, hsize, hread 8 hcut hsize, extents, c, hwalk, hlength, hlies, hapart, hc, hmethods, hconstants,
    hfunctions, hvalues⟩

end Extents

end ByOffset

end ClassFlattening
