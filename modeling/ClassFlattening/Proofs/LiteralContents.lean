import ClassFlattening.Proofs.LiteralBytes
import ClassFlattening.Proofs.MaskedMembers

/-!
# What literals say

Two bodies that differ only in what their literals say are the same when they are masked. If every member of both is
legible, the walk over the one stops where the walk over the other does: each member starts and ends at the same
offset and is of the same kind. A brace or a sign of equality in a literal of a member that is not legible can move
the end of the member, or make another member of it.
-/

namespace ClassFlattening

open Text

section Legibility

variable {t : Text}

/-- Braces are looked for one place after the other. -/
theorem bracesClear_iff : BracesClear t ↔ ∀ n < t.length, (t.drop n).head? = some '{' →
    Mode.code.past (t.take n) = .code → (Mode.code.past (Text.trimEnd (t.take n))).isLiteral = false := by
  refine ⟨fun h n _ hbrace hcode => ?_, fun h front rest ht hcode => ?_⟩
  · obtain ⟨rest, hrest⟩ := List.head?_eq_some_iff.1 hbrace
    exact h _ rest (by rw [← hrest, List.take_append_drop]) hcode
  · subst ht
    have hfront := h front.length (by simp) (by simp)
    rw [List.take_left] at hfront
    exact hfront hcode

instance (t : Text) : Decidable (BracesClear t) := decidable_of_iff' _ bracesClear_iff

/-- A text is legible if it is so in all five regards. -/
theorem legible_iff : Legible t ↔
    (startOf t = .block → ∀ cut ∈ t.cutAtFirst? (· == '{'), Mode.code.past cut.before = .code) ∧
      (startOf t = .binding → ∀ cut ∈ t.cutOnLine? '=', Mode.code.past cut.before = .code) ∧
      (startOf t = .binding → ∀ statement ∈ t.cutAtTopLevel? (· == ';'),
        ∀ cut ∈ statement.before.cutAtFirst? (· == '='), Mode.code.past cut.before = .code) ∧
      (startOf t = .function → BracesClear t) ∧
      ((Member.read t).2 = t.cutLine.after → (Member.read t).2 ≠ [] →
        Mode.code.past t.cutLine.before = .code) :=
  ⟨fun h => ⟨h.block, h.line, h.statement, h.function, h.givenUp⟩,
    fun ⟨block, line, statement, function, givenUp⟩ => ⟨block, line, statement, function, givenUp⟩⟩

instance (t : Text) : Decidable (Legible t) := decidable_of_iff' _ legible_iff

end Legibility

/-- Two texts that are the same when they are masked. -/
def Alike (s t : Text) : Prop := Mode.code.mask s = Mode.code.mask t

namespace Alike

variable {s t : Text}

/-- Alike texts have one size. -/
theorem size_eq (h : Alike s t) : s.size = t.size := by
  rw [← Mode.size_mask .code s, h, Mode.size_mask]

/-- Without the blanks in front a text is masked as it is with them. -/
theorem mask_trimStart (t : Text) : Mode.code.mask t.trimStart = (Mode.code.mask t).trimStart := by
  have hblanks : Mode.code.mask t = t.takeWhile isBlank ++ Mode.code.mask t.trimStart := by
    conv_lhs => rw [← List.takeWhile_append_dropWhile (p := isBlank) (l := t)]
    exact mask_append_of_isCodeChar (isCodeChar_of_allBlank List.all_takeWhile) _
  rw [hblanks, trimStart_append List.all_takeWhile]
  cases htrim : t.trimStart with
  | nil => rfl
  | cons c rest =>
    rw [Mode.mask, Mode.shown_of_not_isLiteral rfl]
    exact (List.dropWhile_cons_of_neg (by simp [not_isBlank_of_trimStart_eq_cons htrim])).symm

theorem head?_eq (h : Alike s t) : s.head? = t.head? := by rw [← head?_mask s, h, head?_mask]

theorem trimStart (h : Alike s t) : Alike s.trimStart t.trimStart := by
  rw [Alike, mask_trimStart, mask_trimStart, h]

/-- Legible members that are alike have one kind, and leave texts that are alike. -/
theorem read (h : Alike s t) (hs : Legible s) (ht : Legible t) :
    (Member.read s).1.kind = (Member.read t).1.kind ∧ Alike (Member.read s).2 (Member.read t).2 := by
  obtain ⟨hkind, hrest⟩ := hs.read_mask
  obtain ⟨hkind', hrest'⟩ := ht.read_mask
  rw [h] at hkind hrest
  exact ⟨hkind.symm.trans hkind', hrest.symm.trans hrest'⟩

end Alike

/-- The rests of a class body at which its members start. -/
def memberStarts (body : Text) : List Text :=
  match _text : body.trimStart with
  | [] => []
  | c :: rest => (c :: rest) :: memberStarts (Member.read (c :: rest)).2
termination_by body.length
decreasing_by
  have hread := Member.length_read_lt (List.cons_ne_nil c rest)
  have hle := body.length_trimStart_le
  rw [_text] at hle
  omega

/-- The offsets of a class body at which its members start. -/
def memberOffsets (body : Text) : List Nat := (memberStarts body).map body.offsetOf

/-- The kind of the member at an offset of a class body, and the offset behind it. -/
def kindAt (body : Text) (start : Nat) : Steps (Kind × Nat) := do
  let (member, next) ← ByOffset.readMember body start
  return (member.kind, next)

section Starts

variable {s t body : Text}

theorem memberStarts_eq (body : Text) :
    memberStarts body =
      match body.trimStart with
      | [] => []
      | c :: rest => (c :: rest) :: memberStarts (Member.read (c :: rest)).2 := by
  rw [memberStarts]
  split <;> simp_all

/-- The members of a body are those that are read where members start. -/
theorem readAll_eq_map_memberStarts (body : Text) :
    Member.readAll body = (memberStarts body).map fun start => (Member.read start).1 := by
  fun_induction Member.readAll body with
  | case1 body hblank =>
    rw [memberStarts_eq, hblank]
    rfl
  | case2 body c rest htrim read ih =>
    rw [memberStarts_eq, htrim, ih]
    rfl

/-- Members start at rests of the body. -/
theorem suffix_of_mem_memberStarts (h : t ∈ memberStarts body) : t <:+ body := by
  fun_induction memberStarts body with
  | case1 => cases h
  | case2 body c rest htrim ih =>
    have hstart : c :: rest <:+ body := htrim ▸ List.dropWhile_suffix _
    rcases List.mem_cons.1 h with rfl | h
    · exact hstart
    · exact (ih h).trans ((ByOffset.read_suffix _).trans hstart)

/-- The members of bodies that are alike start at texts that are alike, one after the other. -/
theorem Alike.memberStarts (h : Alike s t) (hs : ∀ start ∈ memberStarts s, Legible start)
    (ht : ∀ start ∈ memberStarts t, Legible start) : List.Forall₂ Alike (memberStarts s) (memberStarts t) := by
  have htrim := h.trimStart
  fun_induction ClassFlattening.memberStarts s generalizing t with
  | case1 s hblank =>
    rw [hblank] at htrim
    rw [memberStarts_eq t, List.head?_eq_none_iff.1 htrim.head?_eq.symm]
    exact .nil
  | case2 s c rest hstart ih =>
    rw [hstart] at htrim
    obtain ⟨rest', hstart'⟩ := List.head?_eq_some_iff.1 htrim.head?_eq.symm
    rw [hstart'] at htrim
    rw [memberStarts_eq t, hstart'] at ht ⊢
    -- the first members are read alike, so the walks go on from texts that are alike
    have hread := htrim.read (hs _ List.mem_cons_self) (ht _ List.mem_cons_self)
    exact .cons htrim (ih hread.2 (fun start hmem => hs start (List.mem_cons_of_mem _ hmem))
      (fun start hmem => ht start (List.mem_cons_of_mem _ hmem)) hread.2.trimStart)

/-- At the offset of a rest stands the member that the rest starts with. -/
theorem kindAt_offsetOf (h : t <:+ body) :
    kindAt body (body.offsetOf t) = pure ((Member.read t).1.kind, body.offsetOf (Member.read t).2) := by
  rw [kindAt, ByOffset.readMember_eq h, pure_bind]

/-- At the start of a body stands the member that the body starts with. -/
theorem kindAt_zero (body : Text) :
    kindAt body 0 = pure ((Member.read body).1.kind, body.offsetOf (Member.read body).2) := by
  have hread := kindAt_offsetOf (List.suffix_refl body)
  rwa [offsetOf_self] at hread

/-- Rests that are alike start at one offset of bodies that are alike. -/
theorem Alike.offsetOf_eq {u v : Text} (h : Alike s t) (hrest : Alike u v) : s.offsetOf u = t.offsetOf v := by
  rw [offsetOf, offsetOf, h.size_eq, hrest.size_eq]

end Starts

/-- Members of bodies that differ only in what their literals say start and end at the same offsets and are of the
same kind, if the members of both are legible. -/
theorem kindAt_differInLiterals {s t : Text} (h : DifferInLiterals .code s t)
    (hs : ∀ start ∈ memberStarts s, Legible start) (ht : ∀ start ∈ memberStarts t, Legible start) :
    memberOffsets s = memberOffsets t ∧
      ∀ offset ∈ memberOffsets s, ∃ read, kindAt s offset = pure read ∧ kindAt t offset = pure read := by
  have halike : Alike s t := h.mask_eq Mode.isQuoting_code
  have hstarts := halike.memberStarts hs ht
  refine ⟨?_, fun offset hoffset => ?_⟩
  · rw [memberOffsets, memberOffsets, ← List.forall₂_eq_eq_eq, List.forall₂_map_left_iff, List.forall₂_map_right_iff]
    exact hstarts.imp fun u v hrest => halike.offsetOf_eq hrest
  · obtain ⟨u, hu, rfl⟩ := List.mem_map.1 hoffset
    obtain ⟨v, hv, huv⟩ : ∃ v ∈ memberStarts t, Alike u v := by
      obtain ⟨n, hn, rfl⟩ := List.getElem_of_mem hu
      exact ⟨_, List.getElem_mem (hstarts.length_eq ▸ hn), hstarts.get hn _⟩
    obtain ⟨hkind, hrest⟩ := huv.read (hs u hu) (ht v hv)
    refine ⟨_, kindAt_offsetOf (suffix_of_mem_memberStarts hu), ?_⟩
    rw [halike.offsetOf_eq huv, halike.offsetOf_eq hrest, hkind]
    exact kindAt_offsetOf (suffix_of_mem_memberStarts hv)

/-- A body with a string, a character and the name of a test. -/
def threeLiterals (word letter name : Text) : Text :=
  "name: []u8 = \"".toList ++ word ++ "\",\nfn hi() u8 \x7b return '".toList ++ letter ++
    "'; \x7d\ntest \"".toList ++ name ++ "\" \x7b \x7d".toList

/-- Colons, semicolons, signs of equality and letters of other sizes in the literals of a body move no member. -/
theorem kindAt_threeLiterals :
    memberOffsets (threeLiterals "a:b".toList "x".toList "one".toList) = [0, 20, 47] ∧
      memberOffsets (threeLiterals "é;".toList "=".toList "two".toList) = [0, 20, 47] ∧
      ∀ offset ∈ [0, 20, 47], ∃ read,
        kindAt (threeLiterals "a:b".toList "x".toList "one".toList) offset = pure read ∧
          kindAt (threeLiterals "é;".toList "=".toList "two".toList) offset = pure read := by
  have hliterals : DifferInLiterals .code (threeLiterals "a:b".toList "x".toList "one".toList)
      (threeLiterals "é;".toList "=".toList "two".toList) := by decide +kernel
  have hoffsets : memberOffsets (threeLiterals "a:b".toList "x".toList "one".toList) = [0, 20, 47] := by decide +kernel
  have hkinds := kindAt_differInLiterals hliterals (by decide +kernel) (by decide +kernel)
  rw [hoffsets] at hkinds
  exact ⟨hoffsets, hkinds.1.symm, hkinds.2⟩

/-- A field behind a test. -/
def namedTest (name : Text) : Text := "test \"".toList ++ name ++ "\" \x7b \x7d\nx: u8,".toList

/-- A constant without a value, whose type is a character. -/
def unbound (letter : Text) : Text := "const x: '".toList ++ letter ++ "';\n".toList

/-- A function with a string in front of its body that runs to the end of its line. -/
def unended (word : Text) : Text := "fn f() \"".toList ++ word ++ "\n\x7b \x7d \x7b \x7d".toList

/-- A string that goes on behind its line, where no member can start. -/
def continued (sign : Text) : Text := "\"a\\\nx".toList ++ sign ++ " u8,\n".toList

/-- A brace in the name of a test takes the rest of the body along, and a sign of equality in a literal makes a
constant of a statement that binds nothing. An error set is one by the last word of a string in front of it, and
behind a member that makes no sense there is a field in a string. -/
theorem literals_misread :
    (DifferInLiterals .code (namedTest "ab".toList) (namedTest "a\x7b".toList) ∧
      kindAt (namedTest "ab".toList) 0 = pure (.nothing, 13) ∧
      kindAt (namedTest "a\x7b".toList) 0 = pure (.nothing, 20)) ∧
    (DifferInLiterals .code (unbound "a".toList) (unbound "=".toList) ∧
      kindAt (unbound "a".toList) 0 = pure (.nothing, 13) ∧
      kindAt (unbound "=".toList) 0 = pure (.constant, 13)) ∧
    (DifferInLiterals .code (unended "other".toList) (unended "error".toList) ∧
      kindAt (unended "other".toList) 0 = pure (.method, 17) ∧
      kindAt (unended "error".toList) 0 = pure (.method, 21)) ∧
    (DifferInLiterals .code (continued "y".toList) (continued ":".toList) ∧
      4 ∈ memberOffsets (continued "y".toList) ∧ 4 ∈ memberOffsets (continued ":".toList) ∧
      kindAt (continued "y".toList) 4 = pure (.nothing, 11) ∧
      kindAt (continued ":".toList) 4 = pure (.field, 10)) := by
  have hstart {body : Text} {read : Kind × Nat}
      (h : ((Member.read body).1.kind, body.offsetOf (Member.read body).2) = read) :
      kindAt body 0 = pure read := h ▸ kindAt_zero body
  have hbehind {body : Text} {read : Kind × Nat} (h : body.offsetOf (body.drop 4) = 4 ∧
      ((Member.read (body.drop 4)).1.kind, body.offsetOf (Member.read (body.drop 4)).2) = read) :
      kindAt body 4 = pure read := by
    obtain ⟨hoffset, rfl⟩ := h
    rw [← kindAt_offsetOf (List.drop_suffix 4 body), hoffset]
  refine ⟨⟨?_, hstart ?_, hstart ?_⟩, ⟨?_, hstart ?_, hstart ?_⟩, ⟨?_, hstart ?_, hstart ?_⟩,
    ?_, ?_, ?_, hbehind ?_, hbehind ?_⟩
  all_goals decide +kernel

end ClassFlattening
