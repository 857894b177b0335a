import ClassFlattening.Proofs.Occurrences
import ClassFlattening.Proofs.ReadingMethods

/-!
# How a member starts

What starts at the cursor is told by its first words, and then read by a reader of its kind. Words and blanks
are decided by the first sign behind them, so which reader is taken does not depend on what stands behind a
sign.
-/

namespace ClassFlattening

open Text

/-- What a member starts like. -/
inductive Start where
  | comment
  | function
  | block
  | binding
  | field
deriving DecidableEq, Repr

/-- What the member at the start of a text starts like. -/
def startOf (t : Text) : Start :=
  let unqualified := t.dropQualifiers ["pub".toList, "inline".toList, "export".toList]
  if "//".toList.isPrefixOf t then .comment
  else if "fn ".toList.isPrefixOf unqualified || "fn\t".toList.isPrefixOf unqualified then .function
  else if startsBlock unqualified "comptime".toList || startsBlock unqualified "test".toList then .block
  else if unqualified.leadingWord == "const".toList || unqualified.leadingWord == "var".toList then .binding
  else .field

/-- Reads the member at the start of a text by the reader for what it starts like. -/
def Start.read (t : Text) : Start → Member × Text
  | comment => (.nothing, t.cutLine.after)
  | function =>
    match readMethod? t with
    | some (m, rest) => (.method m, rest)
    | none => (.nothing, t.cutLine.after)
  | block => (.nothing, dropBlock t)
  | binding => readConstant t
  | field => readField t

/-- A member is read by the reader for what it starts like. -/
theorem Member.read_eq_start (t : Text) : Member.read t = (startOf t).read t := by
  simp only [Member.read, startOf, apply_ite (Start.read t)]
  rfl

section Signs

variable {s t rest word : Text} {c : Char}

/-- What follows a word in front of a sign. -/
theorem Text.afterLeadingWord_append_cons (hc : isIdentChar c = false) (s t : Text) :
    afterLeadingWord (s ++ c :: t) = s.afterLeadingWord ++ c :: t := by
  have hwhole := leadingWord_append_afterLeadingWord (s ++ c :: t)
  rw [leadingWord_append_cons hc] at hwhole
  conv_rhs at hwhole => rw [← leadingWord_append_afterLeadingWord s, List.append_assoc]
  exact List.append_cancel_left hwhole

/-- Qualifying words are taken off in front of a sign as if nothing followed. -/
theorem Text.dropQualifiers_append_cons (hc : isIdentChar c = false) (hblank : isBlank c = false)
    (words : List Text) (s t : Text) :
    dropQualifiers words (s ++ c :: t) = dropQualifiers words s ++ c :: t := by
  fun_induction dropQualifiers words s with
  | case1 s hword _ _ ih =>
    rw [dropQualifiers, dif_pos]
    · simp only [trimStart_append_cons hblank, afterLeadingWord_append_cons hc, ih]
    · rw [trimStart_append_cons hblank, leadingWord_append_cons hc]
      exact hword
  | case2 s hword =>
    rw [dropQualifiers, dif_neg]
    · exact trimStart_append_cons hblank s t
    · rw [trimStart_append_cons hblank, leadingWord_append_cons hc]
      exact hword

/-- What a member starts like is decided up to any sign that is no slash. -/
theorem startOf_append_cons (hc : isIdentChar c = false) (hblank : isBlank c = false) (hslash : c ≠ '/')
    (s t rest : Text) : startOf (s ++ c :: t) = startOf (s ++ c :: rest) := by
  have hcomment : c ∉ "//".toList := by simpa using hslash
  have hspaced : c ∉ "fn ".toList := by
    intro hmem
    have hchars : ∀ d ∈ "fn ".toList, isIdentChar d = true ∨ isBlank d = true := forall_of_all (by decide)
    rcases hchars c hmem with h | h
    · rw [hc] at h
      cases h
    · rw [hblank] at h
      cases h
  have htabbed : c ∉ "fn\t".toList := by
    intro hmem
    have hchars : ∀ d ∈ "fn\t".toList, isIdentChar d = true ∨ isBlank d = true := forall_of_all (by decide)
    rcases hchars c hmem with h | h
    · rw [hc] at h
      cases h
    · rw [hblank] at h
      cases h
  have hhead (u v w : Text) : (u ++ c :: v).head? = (u ++ c :: w).head? := by cases u <;> rfl
  have hblock (u keyword : Text) :
      startsBlock (u ++ c :: t) keyword = startsBlock (u ++ c :: rest) keyword := by
    simp only [startsBlock, leadingWord_append_cons hc, afterLeadingWord_append_cons hc,
      trimStart_append_cons hblank, hhead _ t rest]
  simp only [startOf, dropQualifiers_append_cons hc hblank, isPrefixOf_append_cons hcomment,
    isPrefixOf_append_cons hspaced, isPrefixOf_append_cons htabbed, leadingWord_append_cons hc, hblock]

end Signs

end ClassFlattening
