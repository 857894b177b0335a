import ClassFlattening.Proofs.ByOffset.Encoding
import ClassFlattening.Proofs.SitePieces

/-!
# Searching the code byte by byte

The searches of the code as programs over bytes: a literal or a comment is stepped over as a whole, and
every other byte is looked at on its own. The byte behind a backslash is stepped over unseen, so the
search may go on within a character of several bytes; it passes the other bytes of the character and
never stops there. Each program ends without a misstep with the offset of the cut that the search makes.
-/

namespace ClassFlattening

namespace Mode

/-- The text from where it is code again. -/
def resume : Mode → Text → Text
  | code, t => t
  | _, [] => []
  | mode, c :: rest => if (mode.step c rest).1 then c :: rest else (mode.step c rest).2.resume rest

@[simp] theorem resume_code (t : Text) : code.resume t = t := by
  cases t <;> rfl

@[simp] theorem resume_nil (mode : Mode) : mode.resume [] = [] := by
  cases mode <;> rfl

/-- A character outside the code is passed. -/
theorem resume_cons {mode : Mode} (hmode : mode ≠ code) (c : Char) (rest : Text) :
    mode.resume (c :: rest) =
      if (mode.step c rest).1 then c :: rest else (mode.step c rest).2.resume rest := by
  cases mode with
  | code => exact absurd rfl hmode
  | quoted quote => rfl
  | escaped quote => rfl
  | line => rfl

theorem resume_suffix (mode : Mode) (t : Text) : mode.resume t <:+ t := by
  induction t generalizing mode with
  | nil =>
    simp only [resume_nil, List.suffix_refl]
  | cons c rest ih =>
    by_cases hmode : mode = code
    · simp only [hmode, resume_code, List.suffix_refl]
    · rw [resume_cons hmode]
      split
      · exact List.suffix_refl _
      · exact (ih _).trans (List.suffix_cons c rest)

/-- Code that is met outside the code starts as code does. -/
theorem step_of_isCode {mode : Mode} {c : Char} {rest : Text} (h : (mode.step c rest).1 = true) :
    mode.step c rest = code.step c rest := by
  cases mode with
  | code => rfl
  | escaped quote => cases h
  | quoted quote =>
    by_cases hc : c = '\n'
    · subst hc
      rw [step_newline (by simp), step_newline (by simp)]
    · rw [step, read] at h
      simp only [hc, if_false] at h
      split at h
      · cases h
      · split at h <;> cases h
  | line =>
    by_cases hc : c = '\n'
    · subst hc
      rw [step_newline (by simp), step_newline (by simp)]
    · rw [step, read, if_neg hc] at h
      cases h

/-- Behind code it is code. -/
theorem next_of_isCode {mode : Mode} {c : Char} {rest : Text} (h : (mode.step c rest).1 = true) :
    (mode.step c rest).2 = code := by
  have hstep := step_of_isCode h
  rw [hstep] at h ⊢
  rw [step, read] at h ⊢
  split
  · next hquote => rw [if_pos hquote] at h; cases h
  · next hquote =>
    rw [if_neg hquote] at h
    split
    · next hline => rw [if_pos hline] at h; cases h
    · rfl

end Mode

namespace Text

section Search

variable {σ : Type} (verdict : σ → Char → Verdict σ)

/-- The text from the character on at which a search of the code stops. -/
def afterInCode (mode : Mode) (state : σ) : Text → Option Text
  | [] => none
  | c :: rest =>
    if (mode.step c rest).1 then
      match verdict state c with
      | .stop => some (c :: rest)
      | .fail => none
      | .pass next => afterInCode (mode.step c rest).2 next rest
    else afterInCode (mode.step c rest).2 state rest

theorem map_drop_passedInCode (mode : Mode) (state : σ) (front t : Text) :
    (passedInCode verdict mode state front.length t).map (front ++ t).drop =
      afterInCode verdict mode state t := by
  induction t generalizing mode state front with
  | nil => rfl
  | cons c rest ih =>
    have hrest := fun next after => ih next after (front ++ [c])
    simp only [List.append_assoc, List.singleton_append, List.length_append, List.length_singleton] at hrest
    simp only [passedInCode, afterInCode]
    split
    · cases verdict state c with
      | stop =>
        rw [Option.map_some, List.drop_left]
      | fail => rfl
      | pass next => exact hrest _ _
    · exact hrest _ _

/-- A search of the code cuts in front of the character at which it stops. -/
theorem map_after_cutInCode (state : σ) (t : Text) :
    (cutInCode verdict state t).map Cut.after = afterInCode verdict .code state t := by
  rw [← map_drop_passedInCode verdict .code state [] t, cutInCode, Option.map_map]
  rfl

/-- A search passes all that is no code. -/
theorem afterInCode_resume (mode : Mode) (state : σ) (t : Text) :
    afterInCode verdict mode state t = afterInCode verdict .code state (mode.resume t) := by
  induction t generalizing mode with
  | nil => rw [Mode.resume_nil, afterInCode, afterInCode]
  | cons c rest ih =>
    by_cases hmode : mode = .code
    · rw [hmode, Mode.resume_code]
    · rw [Mode.resume_cons hmode]
      split
      · next hcode => rw [afterInCode, afterInCode, Mode.step_of_isCode hcode]
      · next hcode =>
        rw [afterInCode, if_neg hcode]
        exact ih _

end Search

end Text

namespace ByOffset

open Text

/-- The bytes from an offset on. -/
def bytesFrom (bytes : List UInt8) (start : Nat) : Steps (List UInt8) :=
  if start ≤ bytes.length then pure (bytes.drop start) else throw (.slice start bytes.length)

/-- The end of a line that is no code. -/
def skipLine (bytes : List UInt8) (start : Nat) : Steps Nat := do
  let rest ← bytesFrom bytes start
  match rest.findIdx? (· == '\n'.toUInt8) with
  | some index => return start + index
  | none => return bytes.length

/-- The end of a literal, from an offset in it on. -/
def Bytes.skipQuoted (bytes : Bytes) (quote : Char) (i : Nat) : Steps Nat :=
  if i < bytes.length then do
    let b ← byteAt bytes i
    if b == '\\'.toUInt8 then bytes |>.skipQuoted quote (i + 2)
    else if b == '\n'.toUInt8 then return i
    else if b == quote.toUInt8 then return i + 1
    else bytes |>.skipQuoted quote (i + 1)
  else return bytes.length
partial_fixpoint

/-- The end of the literal or comment that starts at an offset, if one does. -/
def skipNonCode (bytes : List UInt8) (i : Nat) : Steps (Option Nat) := do
  let b ← byteAt bytes i
  if b == '"'.toUInt8 then return some (← Bytes.skipQuoted bytes '"' (i + 1))
  else if b == '\''.toUInt8 then return some (← Bytes.skipQuoted bytes '\'' (i + 1))
  else if b == '/'.toUInt8 && bytes[i + 1]? == some '/'.toUInt8 then
    return some (← skipLine bytes i)
  else if b == '\\'.toUInt8 && bytes[i + 1]? == some '\\'.toUInt8 then
    return some (← skipLine bytes i)
  else return none

/-- Searches the code for the first byte at which the verdict is to stop. -/
def Bytes.searchCode {σ : Type} (verdict : σ → UInt8 → Steps (Verdict σ)) (bytes : Bytes) (state : σ)
    (i : Nat) : Steps (Option Nat) :=
  if i < bytes.length then do
    match ← skipNonCode bytes i with
    | some next => bytes |>.searchCode verdict state next
    | none =>
      let b ← byteAt bytes i
      match ← verdict state b with
      | .stop => return some i
      | .fail => return none
      | .pass next => bytes |>.searchCode verdict next (i + 1)
  else return none
partial_fixpoint

section Literals

variable {whole t rest : Text} {c : Char}

theorem byteAt_of_narrow (h : c :: t <:+ whole) (hc : c.utf8Size = 1) :
    byteAt whole.bytes (whole.offsetOf (c :: t)) = pure c.toUInt8 := by
  rw [byteAt, bytes_getElem?_of_narrow h hc]

/-- The loop over a literal does not stop at a byte of at least 128. -/
theorem skipQuoted_of_le {bytes : List UInt8} {quote : Char} {i : Nat} {b : UInt8}
    (hquote : quote.utf8Size = 1) (hbyte : bytes[i]? = some b) (hb : 128 ≤ b.toNat) :
    Bytes.skipQuoted bytes quote i = Bytes.skipQuoted bytes quote (i + 1) := by
  obtain ⟨hlt, -⟩ := List.getElem?_eq_some_iff.1 hbyte
  rw [Bytes.skipQuoted, if_pos hlt, byteAt, hbyte, pure_bind]
  simp only [beq_toUInt8_of_le hb hquote, beq_toUInt8_of_le (d := '\\') hb rfl,
    beq_toUInt8_of_le (d := '\n') hb rfl, Bool.false_eq_true, if_false]

/-- The loop over a literal passes a character of several bytes from anywhere in it. -/
theorem skipQuoted_of_wide {quote : Char} {i : Nat} (hquote : quote.utf8Size = 1)
    (h : c :: t <:+ whole) (hc : c.utf8Size ≠ 1) (hi : whole.offsetOf (c :: t) ≤ i)
    (hle : i ≤ whole.offsetOf t) :
    Bytes.skipQuoted whole.bytes quote i = Bytes.skipQuoted whole.bytes quote (whole.offsetOf t) :=
  pass_wide (Bytes.skipQuoted whole.bytes quote) h hc (fun _ _ => skipQuoted_of_le hquote) hi hle

/-- Behind a backslash the loop goes on one byte further, be it behind a character or in it. -/
theorem skipQuoted_escaped {quote : Char} (hquote : quote.utf8Size = 1) (h : t <:+ whole)
    (ih : ∀ c rest, t = c :: rest → Bytes.skipQuoted whole.bytes quote (whole.offsetOf rest) =
      pure (whole.offsetOf ((Mode.quoted quote).resume rest))) :
    Bytes.skipQuoted whole.bytes quote (whole.offsetOf t + 1) =
      pure (whole.offsetOf ((Mode.escaped quote).resume t)) := by
  cases t with
  | nil =>
    rw [Bytes.skipQuoted, offsetOf_nil, length_bytes, if_neg (Nat.not_lt.2 (Nat.le_succ _)),
      Mode.resume_nil, offsetOf_nil]
  | cons c rest =>
    rw [Mode.resume_cons (by simp), Mode.step_escaped, if_neg Bool.false_ne_true, ← ih c rest rfl]
    by_cases hc : c.utf8Size = 1
    · rw [offsetOf_add_one hc h]
    · exact skipQuoted_of_wide hquote h hc (Nat.le_succ _) (offsetOf_cons_lt h)

/-- A literal ends where it is code again. -/
theorem skipQuoted_eq {quote : Char} (hquote : quote.utf8Size = 1) (h : t <:+ whole) :
    Bytes.skipQuoted whole.bytes quote (whole.offsetOf t) =
      pure (whole.offsetOf ((Mode.quoted quote).resume t)) := by
  induction hlength : t.length using Nat.strongRecOn generalizing t with
  | ind n ih =>
    subst hlength
    cases t with
    | nil =>
      rw [Bytes.skipQuoted, offsetOf_nil, length_bytes, if_neg (Nat.lt_irrefl _), Mode.resume_nil,
        offsetOf_nil]
    | cons c rest =>
      have hrest := (List.suffix_cons c rest).trans h
      have hih := ih rest.length (Nat.lt_succ_self _) hrest rfl
      rw [Mode.resume_cons (by simp), Mode.step, Mode.read]
      by_cases hc : c.utf8Size = 1
      · rw [Bytes.skipQuoted, if_pos (by rw [length_bytes]; exact offsetOf_lt h), byteAt_of_narrow h hc,
          pure_bind]
        simp only [toUInt8_beq hc hquote, toUInt8_beq (d := '\\') hc rfl,
          toUInt8_beq (d := '\n') hc rfl, beq_iff_eq]
        have hone := offsetOf_add_one hc h
        by_cases hescape : c = '\\'
        · rw [if_pos hescape, if_pos hescape, if_neg Bool.false_ne_true,
            Nat.add_succ _ 1, hone]
          refine skipQuoted_escaped hquote hrest fun d more hd => ?_
          subst hd
          exact ih more.length (Nat.lt_succ_of_lt (Nat.lt_succ_self _))
            ((List.suffix_cons d more).trans hrest) rfl
        · rw [if_neg hescape, if_neg hescape]
          by_cases hnewline : c = '\n'
          · rw [if_pos hnewline, if_pos hnewline, if_pos rfl]
          · rw [if_neg hnewline, if_neg hnewline, hone]
            by_cases hend : c = quote
            · rw [if_pos hend, if_pos hend, if_neg Bool.false_ne_true, Mode.resume_code]
            · rw [if_neg hend, if_neg hend, if_neg Bool.false_ne_true]
              exact hih
      · have hne := fun {d : Char} (hd : d.utf8Size = 1) =>
          beq_eq_false_iff_ne.1 (beq_of_utf8Size_ne hc hd)
        rw [if_neg (hne rfl), if_neg (hne rfl), if_neg (hne hquote), if_neg Bool.false_ne_true,
          skipQuoted_of_wide hquote h hc (Nat.le_refl _) (Nat.le_of_lt (offsetOf_cons_lt h))]
        exact hih

/-- A line that is no code ends at its newline, which is code again. -/
theorem skipLine_eq (h : t <:+ whole) :
    skipLine whole.bytes (whole.offsetOf t) = pure (whole.offsetOf (Mode.line.resume t)) := by
  have hle := offsetOf_le whole t
  rw [skipLine, bytesFrom, length_bytes, if_pos hle, pure_bind, drop_bytes_offsetOf h,
    findIdx?_bytes rfl, firstOffset?]
  have hresume : Mode.line.resume t = ((t.cutAtFirst? (· == '\n')).map Cut.after).getD [] := by
    clear h hle
    induction t with
    | nil => rfl
    | cons c rest ih =>
      rw [Mode.resume_cons (by simp), cutAtFirst?, cutWhere_cons]
      by_cases hc : c = '\n'
      · subst hc
        rfl
      · rw [cutAtFirst?] at ih
        simp only [Mode.step, Mode.read, hc, if_false, Bool.false_eq_true, beq_eq_false_iff_ne.2 hc,
          ih, Option.map_map]
        rfl
  rw [hresume]
  cases hcut : t.cutAtFirst? (· == '\n') with
  | none => rfl
  | some cut =>
    have hadd := offsetOf_cut (whole_of_cutWhere _ hcut) h
    change pure (whole.offsetOf t + cut.before.size) = pure (whole.offsetOf cut.after)
    rw [hadd]

/-- The byte behind a character shows whether it is doubled. -/
theorem beq_bytes_getElem? {d : Char} (h : t <:+ whole) (hd : d.utf8Size = 1) :
    (whole.bytes[whole.offsetOf t]? == some d.toUInt8) = isDoubled d t := by
  cases t with
  | nil =>
    rw [offsetOf_nil, ← length_bytes, List.getElem?_eq_none (Nat.le_refl _)]
    rfl
  | cons c rest =>
    rw [isDoubled, List.head?_cons, Option.some_beq_some]
    by_cases hc : c.utf8Size = 1
    · rw [bytes_getElem?_of_narrow h hc, Option.some_beq_some, toUInt8_beq hc hd]
    · obtain ⟨b, hbyte, hb⟩ := exists_byte_of_wide h hc (Nat.le_refl _) (offsetOf_cons_lt h)
      rw [hbyte, Option.some_beq_some, beq_toUInt8_of_le hb hd, beq_of_utf8Size_ne hc hd]

/-- No literal or comment starts at a byte of at least 128. -/
theorem skipNonCode_of_le {bytes : List UInt8} {i : Nat} {b : UInt8} (hbyte : bytes[i]? = some b)
    (hb : 128 ≤ b.toNat) : skipNonCode bytes i = pure none := by
  rw [skipNonCode, byteAt, hbyte, pure_bind]
  simp only [beq_toUInt8_of_le (d := '"') hb rfl, beq_toUInt8_of_le (d := '\'') hb rfl,
    beq_toUInt8_of_le (d := '/') hb rfl, beq_toUInt8_of_le (d := '\\') hb rfl, Bool.false_and,
    Bool.false_eq_true, if_false]

/-- A character of several bytes is code. -/
theorem step_of_wide (hc : c.utf8Size ≠ 1) : Mode.code.step c t = (true, .code) := by
  simp only [Mode.step, Mode.read, isQuote, isLineStart, beq_of_utf8Size_ne (d := '"') hc rfl,
    beq_of_utf8Size_ne (d := '\'') hc rfl, beq_of_utf8Size_ne (d := '/') hc rfl,
    beq_of_utf8Size_ne (d := '\\') hc rfl, Bool.false_and, Bool.or_self, Bool.false_eq_true, if_false]

/-- A literal or comment is stepped over as a whole. -/
theorem skipNonCode_eq (h : c :: t <:+ whole) :
    skipNonCode whole.bytes (whole.offsetOf (c :: t)) =
      pure (if (Mode.code.step c t).1 then none
        else some (whole.offsetOf ((Mode.code.step c t).2.resume t))) := by
  have hrest := (List.suffix_cons c t).trans h
  by_cases hc : c.utf8Size = 1
  · have hone := offsetOf_add_one hc h
    have hline : c ≠ '\n' → skipLine whole.bytes (whole.offsetOf (c :: t)) =
        pure (whole.offsetOf (Mode.line.resume t)) := by
      intro hne
      rw [skipLine_eq h, Mode.resume_cons (by simp), Mode.step, Mode.read, if_neg hne,
        if_neg Bool.false_ne_true]
    rw [skipNonCode, byteAt_of_narrow h hc, pure_bind, hone, skipQuoted_eq rfl hrest,
      skipQuoted_eq rfl hrest, beq_bytes_getElem? hrest rfl, beq_bytes_getElem? hrest rfl]
    simp only [toUInt8_beq (d := '"') hc rfl, toUInt8_beq (d := '\'') hc rfl,
      toUInt8_beq (d := '/') hc rfl, toUInt8_beq (d := '\\') hc rfl, pure_bind, Mode.step, Mode.read,
      isQuote, isLineStart]
    by_cases hstring : c = '"'
    · subst hstring
      rfl
    · by_cases hchar : c = '\''
      · subst hchar
        rfl
      · by_cases hslash : c = '/'
        · subst hslash
          rw [hline (by decide)]
          rcases Bool.eq_false_or_eq_true (isDoubled '/' t) with hdoubled | hdoubled <;>
            simp [hdoubled]
        · by_cases hback : c = '\\'
          · subst hback
            rw [hline (by decide)]
            rcases Bool.eq_false_or_eq_true (isDoubled '\\' t) with hdoubled | hdoubled <;>
              simp [hdoubled]
          · simp only [beq_eq_false_iff_ne.2 hstring, beq_eq_false_iff_ne.2 hchar,
              beq_eq_false_iff_ne.2 hslash, beq_eq_false_iff_ne.2 hback, Bool.false_and,
              Bool.or_self, Bool.false_eq_true, if_false, if_true]
  · obtain ⟨b, hbyte, hb⟩ := exists_byte_of_wide h hc (Nat.le_refl _) (offsetOf_cons_lt h)
    rw [skipNonCode_of_le hbyte hb, step_of_wide hc]
    rfl

end Literals

section Search

/-- A verdict on bytes says of each one-byte character what a verdict on characters says, and both pass
everything else, in the states that come up. -/
structure Agrees {σ : Type} (comesUp : σ → Prop) (onBytes : σ → UInt8 → Steps (Verdict σ))
    (verdict : σ → Char → Verdict σ) : Prop where
  narrow : ∀ {state c}, comesUp state → c.utf8Size = 1 →
    onBytes state c.toUInt8 = pure (verdict state c)
  byte : ∀ {state b}, comesUp state → 128 ≤ b.toNat → onBytes state b = pure (.pass state)
  wide : ∀ {state c}, comesUp state → c.utf8Size ≠ 1 → verdict state c = .pass state
  next : ∀ {state after c}, comesUp state → verdict state c = .pass after → comesUp after

variable {σ : Type} {comesUp : σ → Prop} {onBytes : σ → UInt8 → Steps (Verdict σ)}
  {verdict : σ → Char → Verdict σ} {whole t : Text} {state : σ}

/-- The search does not stop at a byte of at least 128. -/
theorem searchCode_of_le (hagrees : Agrees comesUp onBytes verdict) (hstate : comesUp state)
    {bytes : List UInt8} {i : Nat} {b : UInt8} (hbyte : bytes[i]? = some b) (hb : 128 ≤ b.toNat) :
    Bytes.searchCode onBytes bytes state i = Bytes.searchCode onBytes bytes state (i + 1) := by
  obtain ⟨hlt, -⟩ := List.getElem?_eq_some_iff.1 hbyte
  rw [Bytes.searchCode, if_pos hlt, skipNonCode_of_le hbyte hb, pure_bind]
  simp only [byteAt, hbyte, pure_bind, hagrees.byte hstate hb]

/-- The search passes a character of the code. -/
theorem searchCode_pass {c : Char} {after : σ} (h : c :: t <:+ whole) (hc : c.utf8Size = 1)
    (hcode : Mode.code.step c t = (true, .code))
    (hverdict : onBytes state c.toUInt8 = pure (.pass after)) :
    Bytes.searchCode onBytes whole.bytes state (whole.offsetOf (c :: t)) =
      Bytes.searchCode onBytes whole.bytes after (whole.offsetOf t) := by
  have hlt : whole.offsetOf (c :: t) < whole.bytes.length := by
    rw [length_bytes]
    exact offsetOf_lt h
  rw [Bytes.searchCode, if_pos hlt, skipNonCode_eq h, hcode, if_pos rfl, pure_bind]
  simp only [byteAt_of_narrow h hc, pure_bind, hverdict, offsetOf_add_one hc h]

/-- The offset of a cut in the code. -/
theorem map_offsetOf_cutInCode (verdict : σ → Char → Verdict σ) (state : σ) (whole t : Text) :
    (cutInCode verdict state t).map (fun cut => whole.offsetOf cut.after) =
      (afterInCode verdict .code state t).map whole.offsetOf := by
  rw [← map_after_cutInCode, Option.map_map]
  rfl

/-- The search over bytes finds the offset of the cut in the code. -/
theorem searchCode_eq (hagrees : Agrees comesUp onBytes verdict) (hstate : comesUp state)
    (h : t <:+ whole) : Bytes.searchCode onBytes whole.bytes state (whole.offsetOf t) =
      pure ((cutInCode verdict state t).map fun cut => whole.offsetOf cut.after) := by
  rw [map_offsetOf_cutInCode]
  induction hlength : t.length using Nat.strongRecOn generalizing t state with
  | ind n ih =>
    subst hlength
    cases t with
    | nil =>
      rw [Bytes.searchCode, offsetOf_nil, length_bytes, if_neg (Nat.lt_irrefl _)]
      rfl
    | cons c rest =>
      have hrest := (List.suffix_cons c rest).trans h
      have hlt : whole.offsetOf (c :: rest) < whole.bytes.length := by
        rw [length_bytes]
        exact offsetOf_lt h
      rw [afterInCode]
      by_cases hcode : (Mode.code.step c rest).1 = true
      · have hnext : (Mode.code.step c rest).2 = .code := Mode.next_of_isCode hcode
        rw [if_pos hcode, hnext]
        by_cases hc : c.utf8Size = 1
        · rw [Bytes.searchCode, if_pos hlt, skipNonCode_eq h, if_pos hcode, pure_bind]
          simp only [byteAt_of_narrow h hc, pure_bind, hagrees.narrow hstate hc]
          cases hverdict : verdict state c with
          | stop => rfl
          | fail => rfl
          | pass after =>
            dsimp only
            rw [offsetOf_add_one hc h]
            exact ih _ (Nat.lt_succ_self _) (hagrees.next hstate hverdict) hrest rfl
        · rw [hagrees.wide hstate hc, pass_wide (Bytes.searchCode onBytes whole.bytes state) h hc
            (fun _ _ => searchCode_of_le hagrees hstate) (Nat.le_refl _)
            (Nat.le_of_lt (offsetOf_cons_lt h))]
          exact ih _ (Nat.lt_succ_self _) hstate hrest rfl
      · have hresume := Mode.resume_suffix (Mode.code.step c rest).2 rest
        rw [if_neg hcode, Bytes.searchCode, if_pos hlt, skipNonCode_eq h, if_neg hcode, pure_bind,
          afterInCode_resume]
        exact ih _ (Nat.lt_succ_of_le hresume.length_le) hstate (hresume.trans hrest) rfl

end Search

end ByOffset

end ClassFlattening
