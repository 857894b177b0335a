/-!
# Texts and their cuts

A text is a list of characters. Every search in this library answers with a cut: the text in
front of the place that was found and the text from there on. Offsets count the bytes of the
encoded text; they are sums over the part in front of a cut, so no offset can fall inside a
character unless it is given from outside, and `cutAt?` refuses such an offset.

`cutWhere` is the one search. It counts the characters in front of the place and cuts only then, so
that a search in vain costs nothing but the walk. Its lemmas say that the two parts of a cut make up
the text again and that the second part is never empty; the searches built from it inherit both.
-/

namespace ClassFlattening

/-- A text is the list of its characters. -/
abbrev Text := List Char

/-- A text in two parts. -/
structure Cut where
  before : Text
  after : Text
deriving DecidableEq, Repr

/-- The text that was cut. -/
def Cut.whole (cut : Cut) : Text := cut.before ++ cut.after

/-- The text behind the character at the cut. -/
def Cut.behind (cut : Cut) : Text := cut.after.tail

/-- The text through the character at the cut. -/
def Cut.through (cut : Cut) : Text := cut.before ++ cut.after.take 1

/-- Nothing is lost between the text through a character and the text behind it. -/
theorem Cut.through_append_behind (cut : Cut) : cut.through ++ cut.behind = cut.whole := by
  cases cut with
  | mk before after => cases after <;> simp [Cut.through, Cut.behind, Cut.whole]

/-- A decision at one character: cut in front of it, give up, or pass it in a new state. -/
inductive Verdict (σ : Type) where
  | stop
  | fail
  | pass (state : σ)

namespace Text

/-- The number of bytes of the encoded text. -/
def size (t : Text) : Nat := t.foldl (fun bytes c => bytes + c.utf8Size) 0

@[simp] theorem size_nil : size [] = 0 := rfl

theorem foldl_utf8Size (n : Nat) (t : Text) :
    t.foldl (fun bytes c => bytes + c.utf8Size) n = n + size t := by
  induction t generalizing n with
  | nil => rfl
  | cons c rest ih =>
    rw [size, List.foldl_cons, List.foldl_cons, ih, ih (0 + c.utf8Size)]
    omega

@[simp] theorem size_cons (c : Char) (t : Text) : size (c :: t) = c.utf8Size + size t := by
  rw [size, List.foldl_cons, foldl_utf8Size, Nat.zero_add]

@[simp] theorem size_append (s t : Text) : size (s ++ t) = size s + size t := by
  rw [size, List.foldl_append, foldl_utf8Size, ← size]

@[simp] theorem size_reverse (t : Text) : size t.reverse = size t := by
  induction t with
  | nil => rfl
  | cons c rest ih => simp [ih, Nat.add_comm]

/-- The bytes of the encoded text. -/
def bytes (t : Text) : List UInt8 := t.flatMap String.utf8EncodeChar

/-- The size of a text is the number of its bytes. -/
theorem length_bytes (t : Text) : t.bytes.length = t.size := by
  induction t with
  | nil => rfl
  | cons c rest ih =>
    rw [size_cons, ← ih, bytes, List.flatMap_cons, List.length_append,
      String.length_utf8EncodeChar, ← bytes]

/-- Whether a text is among others is decided by comparing them. -/
instance decidableMem (t : Text) (ts : List Text) : Decidable (t ∈ ts) := inferInstance

/-- Whether a text comes before another: the first characters that differ decide. -/
def isBefore (s t : Text) : Bool := List.lex s t fun c d => c.toNat < d.toNat

/-- How many characters a search passes before it stops, on top of those it has passed already. The
verdict sees the state, the character and the text behind it. -/
@[specialize] def passedWhere {σ : Type} (verdict : σ → Char → Text → Verdict σ) (state : σ)
    (passed : Nat) : Text → Option Nat
  | [] => none
  | c :: rest =>
    match verdict state c rest with
    | .stop => some passed
    | .fail => none
    | .pass next => passedWhere verdict next (passed + 1) rest

/-- Cuts a text in front of the first character at which the verdict is to stop. -/
@[inline] def cutWhere {σ : Type} (verdict : σ → Char → Text → Verdict σ) (start : σ) (t : Text) :
    Option Cut :=
  (passedWhere verdict start 0 t).map fun passed => ⟨t.take passed, t.drop passed⟩

section CutWhere

variable {σ : Type} (verdict : σ → Char → Text → Verdict σ)

/-- What was passed before counts in full. -/
theorem passedWhere_eq_map (state : σ) (passed : Nat) (t : Text) :
    passedWhere verdict state passed t = (passedWhere verdict state 0 t).map (· + passed) := by
  induction t generalizing state passed with
  | nil => rfl
  | cons c rest ih =>
    simp only [passedWhere]
    cases verdict state c rest with
    | stop => simp
    | fail => rfl
    | pass next =>
      simp only [ih next (passed + 1), ih next 1, Option.map_map, Function.comp_def]
      congr 1
      funext n
      omega

@[simp] theorem cutWhere_nil (state : σ) : cutWhere verdict state [] = none := rfl

/-- One step of the search. -/
theorem cutWhere_cons (state : σ) (c : Char) (rest : Text) :
    cutWhere verdict state (c :: rest) =
      match verdict state c rest with
      | .stop => some ⟨[], c :: rest⟩
      | .fail => none
      | .pass next =>
        (cutWhere verdict next rest).map fun cut => ⟨c :: cut.before, cut.after⟩ := by
  simp only [cutWhere, passedWhere]
  cases verdict state c rest with
  | stop => rfl
  | fail => rfl
  | pass next => simp [passedWhere_eq_map verdict next 1, Option.map_map, Function.comp_def]

variable {verdict} in
/-- A search that finds a place finds it in front of the first character, or behind it. -/
theorem cutWhere_cases {state : σ} {c : Char} {rest : Text} {cut : Cut}
    (h : cutWhere verdict state (c :: rest) = some cut) :
    (verdict state c rest = .stop ∧ cut = ⟨[], c :: rest⟩) ∨
      ∃ next inner, verdict state c rest = .pass next ∧ cutWhere verdict next rest = some inner ∧
        cut = ⟨c :: inner.before, inner.after⟩ := by
  rw [cutWhere_cons] at h
  cases hverdict : verdict state c rest with
  | stop =>
    rw [hverdict] at h
    exact Or.inl ⟨rfl, (Option.some.inj h).symm⟩
  | fail => simp [hverdict] at h
  | pass next =>
    rw [hverdict] at h
    obtain ⟨inner, hinner, hcut⟩ := Option.map_eq_some_iff.1 h
    exact Or.inr ⟨next, inner, rfl, hinner, hcut.symm⟩

/-- A cut loses nothing. -/
theorem whole_of_cutWhere {state : σ} {t : Text} {cut : Cut}
    (h : cutWhere verdict state t = some cut) : cut.whole = t := by
  obtain ⟨passed, _, rfl⟩ := Option.map_eq_some_iff.1 h
  exact List.take_append_drop passed t

/-- The character at which a search stops is there. -/
theorem after_ne_nil_of_cutWhere {state : σ} {t : Text} {cut : Cut}
    (h : cutWhere verdict state t = some cut) : cut.after ≠ [] := by
  induction t generalizing state cut with
  | nil => simp at h
  | cons c rest ih =>
    rcases cutWhere_cases h with ⟨-, rfl⟩ | ⟨next, inner, -, hinner, rfl⟩
    · exact List.cons_ne_nil c rest
    · exact show inner.after ≠ [] from ih hinner

end CutWhere

/-- A part behind a cut is no longer than the text. -/
theorem length_after_le {cut : Cut} {t : Text} (h : cut.whole = t) :
    cut.after.length ≤ t.length := by
  subst h
  simp [Cut.whole]

/-- What follows the character at which a search stopped is shorter than the text. -/
theorem length_behind_lt_of_cutWhere {σ : Type} {verdict : σ → Char → Text → Verdict σ} {state : σ}
    {t : Text} {cut : Cut} (h : cutWhere verdict state t = some cut) :
    cut.behind.length < t.length := by
  have hle := length_after_le (whole_of_cutWhere verdict h)
  have hne := List.length_pos_iff.2 (after_ne_nil_of_cutWhere verdict h)
  rw [Cut.behind, List.length_tail]
  omega

/-- The part behind a cut is a rest of the text. -/
theorem suffix_of_cut {cut : Cut} {t : Text} (hwhole : cut.whole = t) : cut.after <:+ t := by
  subst hwhole
  exact List.suffix_append _ _

/-- The text behind the character at a cut is a rest of the text. -/
theorem behind_suffix {cut : Cut} {t : Text} (hwhole : cut.whole = t) : cut.behind <:+ t :=
  (List.tail_suffix cut.after).trans (suffix_of_cut hwhole)

/-- Cuts in front of the first character with the property. -/
@[inline] def cutAtFirst? (p : Char → Bool) (t : Text) : Option Cut :=
  cutWhere (fun () c _ => if p c then .stop else .pass ()) () t

/-- A character with the property is found if there is one. -/
theorem isSome_cutAtFirst? (p : Char → Bool) (t : Text) : (t.cutAtFirst? p).isSome = t.any p := by
  induction t with
  | nil => rfl
  | cons c rest ih =>
    rw [cutAtFirst?, cutWhere_cons]
    cases hc : p c
    · simpa [hc, cutAtFirst?] using ih
    · simp [hc]

/-- Whether a pattern starts with a character and goes on in the text behind it. -/
@[inline] def matchesAt (pattern : Text) (c : Char) (rest : Text) : Bool :=
  match pattern with
  | [] => true
  | p :: more => p == c && more.isPrefixOf rest

/-- The character and the text behind it are a text that starts with the pattern. -/
theorem matchesAt_eq_isPrefixOf (pattern : Text) (c : Char) (rest : Text) :
    matchesAt pattern c rest = pattern.isPrefixOf (c :: rest) := by
  cases pattern <;> rfl

/-- Cuts in front of the first occurrence of a pattern. -/
def cutAtText? (t pattern : Text) : Option Cut :=
  cutWhere (fun () c rest => if matchesAt pattern c rest then .stop else .pass ()) () t

/-- Whether a pattern occurs in the text. -/
def contains (t pattern : Text) : Bool := (t.cutAtText? pattern).isSome

/-- A pattern that occurs in a text occurs in every longer text that ends with it. -/
theorem contains_append {t pattern : Text} (h : t.contains pattern = true) (front : Text) :
    (front ++ t : Text).contains pattern = true := by
  induction front with
  | nil => exact h
  | cons c rest ih =>
    rw [contains, cutAtText?, List.cons_append, cutWhere_cons]
    cases matchesAt pattern c (rest ++ t)
    · simpa [contains, cutAtText?] using ih
    · rfl

/-- Cuts behind the last character with the property; without one, in front of the text. -/
def cutAfterLast (p : Char → Bool) (t : Text) : Cut where
  before := (t.reverse.dropWhile fun c => !p c).reverse
  after := (t.reverse.takeWhile fun c => !p c).reverse

/-- The text behind a pattern that it starts with. -/
def dropLead? (t pattern : Text) : Option Text :=
  if pattern.isPrefixOf t then some (t.drop pattern.length) else none

/-- What a pattern leaves is shorter than the text by the pattern. -/
theorem length_of_dropLead? {t pattern rest : Text} (h : t.dropLead? pattern = some rest) :
    rest.length + pattern.length = t.length := by
  rw [dropLead?] at h
  split at h
  · next hp =>
    obtain ⟨tail, rfl⟩ := List.isPrefixOf_iff_prefix.1 hp
    simp at h
    simp [h, Nat.add_comm]
  · simp at h

/-- Cuts behind the first line, which keeps its newline. -/
def cutLine (t : Text) : Cut :=
  match cutAtFirst? (· == '\n') t with
  | some cut => ⟨cut.through, cut.behind⟩
  | none => ⟨t, []⟩

/-- What follows a line is no longer than the text, and shorter unless the text is empty. -/
theorem length_cutLine_after (t : Text) :
    t.cutLine.after.length ≤ t.length ∧ (t ≠ [] → t.cutLine.after.length < t.length) := by
  rw [cutLine]
  split
  · next h => exact ⟨Nat.le_of_lt (length_behind_lt_of_cutWhere h),
      fun _ => length_behind_lt_of_cutWhere h⟩
  · exact ⟨Nat.zero_le _, List.length_pos_iff.2⟩

/-- The pieces between the separators; there is always one more piece than separators. -/
def splitOn (t : Text) (separator : Char) : List Text :=
  match t with
  | [] => [[]]
  | c :: rest =>
    if c = separator then [] :: splitOn rest separator
    else
      match splitOn rest separator with
      | [] => [[c]]
      | piece :: pieces => (c :: piece) :: pieces

/-- A number in decimal notation. -/
def decimal (n : Nat) : Text := Nat.toDigits 10 n

/-- Cuts at a byte offset, unless it lies behind the end or inside a character. -/
def cutAt? (offset : Nat) (t : Text) : Option Cut :=
  go offset [] t
where
  /-- The passed characters are kept last first. -/
  go (left : Nat) (passed : Text) : Text → Option Cut
    | [] => if left = 0 then some ⟨passed.reverse, []⟩ else none
    | c :: rest =>
      if left = 0 then some ⟨passed.reverse, c :: rest⟩
      else if c.utf8Size ≤ left then go (left - c.utf8Size) (c :: passed) rest
      else none

theorem whole_of_cutAt?_go {left : Nat} {passed t : Text} {cut : Cut}
    (h : cutAt?.go left passed t = some cut) : cut.whole = passed.reverse ++ t := by
  induction t generalizing left passed with
  | nil =>
    rw [cutAt?.go] at h
    split at h
    · cases h; rfl
    · simp at h
  | cons c rest ih =>
    rw [cutAt?.go] at h
    split at h
    · cases h; rfl
    · split at h
      · simpa using ih h
      · simp at h

/-- A cut at an offset loses nothing. -/
theorem whole_of_cutAt? {offset : Nat} {t : Text} {cut : Cut} (h : t.cutAt? offset = some cut) :
    cut.whole = t := by
  simpa using whole_of_cutAt?_go h

theorem size_before_of_cutAt?_go {left : Nat} {passed t : Text} {cut : Cut}
    (h : cutAt?.go left passed t = some cut) : cut.before.size = passed.size + left := by
  induction t generalizing left passed with
  | nil =>
    rw [cutAt?.go] at h
    split at h
    · cases h; simp [*]
    · simp at h
  | cons c rest ih =>
    rw [cutAt?.go] at h
    split at h
    · cases h; simp [*]
    · split at h
      · rw [ih h, size_cons]
        omega
      · simp at h

/-- A cut at an offset is at that offset. -/
theorem size_before_of_cutAt? {offset : Nat} {t : Text} {cut : Cut}
    (h : t.cutAt? offset = some cut) : cut.before.size = offset := by
  simpa using size_before_of_cutAt?_go h

/-- Cuts at the first character boundary at or behind a byte offset; behind the end there is
nothing left. -/
def cutNear (offset : Nat) (t : Text) : Cut :=
  (cutWhere (fun left c _ => if left = 0 then .stop else .pass (left - c.utf8Size)) offset t).getD
    ⟨t, []⟩

end Text

end ClassFlattening
