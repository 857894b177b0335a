import ClassFlattening.Text.Basic

/-!
# Characters from bytes

Any bytes can be read as a text. A character is encoded in one to four bytes; which values the
second byte may have depends on the first, so that no character has two encodings and none lies
outside the code points. Where the bytes encode no character a replacement character stands for
them: one for each run of bytes that begins a character and breaks off, and one for each byte that
begins none.
`ofBytes_bytes` says that the bytes of a text are read as the text.
-/

namespace ClassFlattening

/-- What stands for bytes that encode no character. -/
def replacementChar : Char := '\uFFFD'

/-- A character of which not all bytes have been read: the bits so far, how many bytes are to come
behind the next one, and the least and the greatest value of the next one. -/
structure PartialChar where
  bits : Nat
  missing : Nat
  least : Nat := 0x80
  greatest : Nat := 0xBF
deriving DecidableEq, Repr

/-- What a byte begins. -/
inductive Beginning where
  | complete (c : Char)
  | partly (part : PartialChar)
  | nothing
deriving DecidableEq, Repr

/-- What the byte of a value begins. -/
def beginning (byte : Nat) : Beginning :=
  if byte < 0x80 then .complete (Char.ofNat byte)
  else if byte < 0xC2 then .nothing
  else if byte < 0xE0 then .partly { bits := byte - 0xC0, missing := 0 }
  else if byte = 0xE0 then .partly { bits := 0, missing := 1, least := 0xA0 }
  else if byte = 0xED then .partly { bits := 0xD, missing := 1, greatest := 0x9F }
  else if byte < 0xF0 then .partly { bits := byte - 0xE0, missing := 1 }
  else if byte = 0xF0 then .partly { bits := 0, missing := 2, least := 0x90 }
  else if byte < 0xF4 then .partly { bits := byte - 0xF0, missing := 2 }
  else if byte = 0xF4 then .partly { bits := 4, missing := 2, greatest := 0x8F }
  else .nothing

/-- Which second bytes follow the first byte of a three-byte character. -/
theorem exists_part_of_three {first second : Nat} (hfirst : 0xE0 ≤ first ∧ first < 0xF0)
    (hsecond : 0x80 ≤ second ∧ second ≤ 0xBF) (hshortest : first = 0xE0 → 0xA0 ≤ second)
    (hsurrogate : first = 0xED → second ≤ 0x9F) :
    ∃ part, beginning first = .partly part ∧ part.bits = first - 0xE0 ∧ part.missing = 1 ∧
      part.least ≤ second ∧ second ≤ part.greatest := by
  by_cases h₁ : first = 0xE0
  · subst h₁
    exact ⟨_, rfl, rfl, rfl, hshortest rfl, hsecond.2⟩
  · by_cases h₂ : first = 0xED
    · subst h₂
      exact ⟨_, rfl, rfl, rfl, hsecond.1, hsurrogate rfl⟩
    · refine ⟨{ bits := first - 0xE0, missing := 1 }, ?_, rfl, rfl, hsecond⟩
      rw [beginning, if_neg (by omega), if_neg (by omega), if_neg (by omega), if_neg h₁, if_neg h₂,
        if_pos (by omega)]

/-- Which second bytes follow the first byte of a four-byte character. -/
theorem exists_part_of_four {first second : Nat} (hfirst : 0xF0 ≤ first ∧ first ≤ 0xF4)
    (hsecond : 0x80 ≤ second ∧ second ≤ 0xBF) (hshortest : first = 0xF0 → 0x90 ≤ second)
    (hlast : first = 0xF4 → second ≤ 0x8F) :
    ∃ part, beginning first = .partly part ∧ part.bits = first - 0xF0 ∧ part.missing = 2 ∧
      part.least ≤ second ∧ second ≤ part.greatest := by
  by_cases h₁ : first = 0xF0
  · subst h₁
    exact ⟨_, rfl, rfl, rfl, hshortest rfl, hsecond.2⟩
  · by_cases h₂ : first = 0xF4
    · subst h₂
      exact ⟨_, rfl, rfl, rfl, hsecond.1, hlast rfl⟩
    · refine ⟨{ bits := first - 0xF0, missing := 2 }, ?_, rfl, rfl, hsecond⟩
      rw [beginning, if_neg (by omega), if_neg (by omega), if_neg (by omega), if_neg (by omega),
        if_neg (by omega), if_neg (by omega), if_neg h₁, if_pos (by omega)]

/-- What has been read: the characters, last first, and perhaps a part of the next one. -/
structure Decoding where
  passed : Text := []
  part : Option PartialChar := none
deriving DecidableEq, Repr

namespace Decoding

/-- Reads a byte behind complete characters. -/
def start (passed : Text) (byte : Nat) : Decoding :=
  match beginning byte with
  | .complete c => ⟨c :: passed, none⟩
  | .partly part => ⟨passed, some part⟩
  | .nothing => ⟨replacementChar :: passed, none⟩

/-- Reads a byte. -/
def read (decoding : Decoding) (byte : Nat) : Decoding :=
  match decoding.part with
  | none => start decoding.passed byte
  | some part =>
    if part.least ≤ byte ∧ byte ≤ part.greatest then
      let bits := part.bits * 64 + (byte - 0x80)
      match part.missing with
      | 0 => ⟨Char.ofNat bits :: decoding.passed, none⟩
      | missing + 1 => ⟨decoding.passed, some { bits, missing }⟩
    else start (replacementChar :: decoding.passed) byte

/-- The text that has been read, at the end of the bytes. -/
def text (decoding : Decoding) : Text :=
  (if decoding.part.isSome then replacementChar :: decoding.passed else decoding.passed).reverse

/-- A byte that continues a part without completing it. -/
theorem read_of_missing {passed : Text} {part : PartialChar} {byte missing : Nat}
    (hmissing : part.missing = missing + 1) (hleast : part.least ≤ byte)
    (hgreatest : byte ≤ part.greatest) :
    read ⟨passed, some part⟩ byte =
      ⟨passed, some { bits := part.bits * 64 + (byte - 0x80), missing }⟩ := by
  simp only [read, hleast, hgreatest, and_self, if_true, hmissing]

/-- A byte that completes a part. -/
theorem read_of_complete {passed : Text} {part : PartialChar} {byte : Nat}
    (hmissing : part.missing = 0) (hleast : part.least ≤ byte) (hgreatest : byte ≤ part.greatest) :
    read ⟨passed, some part⟩ byte =
      ⟨Char.ofNat (part.bits * 64 + (byte - 0x80)) :: passed, none⟩ := by
  simp only [read, hleast, hgreatest, and_self, if_true, hmissing]

/-- A byte that begins a character of several bytes. -/
theorem read_of_partly {passed : Text} {part : PartialChar} {byte : Nat}
    (h : beginning byte = .partly part) : read ⟨passed, none⟩ byte = ⟨passed, some part⟩ := by
  simp only [read, start, h]

/-- The bytes of a character are read as the character. -/
theorem foldl_read_bytes (passed : Text) (c : Char) :
    (String.utf8EncodeChar c).foldl (fun d byte => read d byte.toNat) ⟨passed, none⟩ =
      ⟨c :: passed, none⟩ := by
  have hvalid : c.val.toNat < 0xD800 ∨ 0xDFFF < c.val.toNat ∧ c.val.toNat < 0x110000 := c.valid
  have hback : Char.ofNat c.val.toNat = c := Char.ofNat_toNat c
  rw [String.utf8EncodeChar]
  generalize c.val.toNat = v at hvalid hback
  have htail (n : Nat) : (n % 64 + 128) % 2 ^ 8 = n % 64 + 128 := by omega
  split
  · have hv : v % 256 = v := by omega
    simp [read, start, beginning, hv, hback, show v < 128 by omega]
  · split
    · have hbegin : beginning (v / 64 % 32 + 192) =
          .partly { bits := v / 64 % 32 + 192 - 0xC0, missing := 0 } := by
        rw [beginning, if_neg (by omega), if_neg (by omega), if_pos (by omega)]
      simp only [List.foldl_cons, List.foldl_nil, UInt8.toNat_ofNat', htail,
        show (v / 64 % 32 + 192) % 2 ^ 8 = v / 64 % 32 + 192 by omega]
      rw [read_of_partly hbegin, read_of_complete rfl (by simp) (by simp; omega)]
      rw [show (v / 64 % 32 + 192 - 0xC0) * 64 + (v % 64 + 128 - 0x80) = v by omega, hback]
    · split
      · obtain ⟨part, hbegin, hbits, hmissing, hleast, hgreatest⟩ :=
          @exists_part_of_three (v / 4096 % 16 + 224) (v / 64 % 64 + 128) (by omega) (by omega)
            (by omega) (by omega)
        simp only [List.foldl_cons, List.foldl_nil, UInt8.toNat_ofNat', htail,
          show (v / 4096 % 16 + 224) % 2 ^ 8 = v / 4096 % 16 + 224 by omega]
        rw [read_of_partly hbegin, read_of_missing hmissing hleast hgreatest,
          read_of_complete rfl (by simp) (by simp; omega)]
        simp only [hbits]
        rw [show ((v / 4096 % 16 + 224 - 0xE0) * 64 + (v / 64 % 64 + 128 - 0x80)) * 64 +
          (v % 64 + 128 - 0x80) = v by omega, hback]
      · obtain ⟨part, hbegin, hbits, hmissing, hleast, hgreatest⟩ :=
          @exists_part_of_four (v / 262144 % 8 + 240) (v / 4096 % 64 + 128) (by omega) (by omega)
            (by omega) (by omega)
        simp only [List.foldl_cons, List.foldl_nil, UInt8.toNat_ofNat', htail,
          show (v / 262144 % 8 + 240) % 2 ^ 8 = v / 262144 % 8 + 240 by omega]
        rw [read_of_partly hbegin, read_of_missing hmissing hleast hgreatest,
          read_of_missing rfl (by simp) (by simp; omega),
          read_of_complete rfl (by simp) (by simp; omega)]
        simp only [hbits]
        rw [show (((v / 262144 % 8 + 240 - 0xF0) * 64 + (v / 4096 % 64 + 128 - 0x80)) * 64 +
          (v / 64 % 64 + 128 - 0x80)) * 64 + (v % 64 + 128 - 0x80) = v by omega, hback]

/-- The bytes of a text are read as its characters. -/
theorem foldl_read_bytes_text (passed t : Text) :
    t.bytes.foldl (fun d byte => read d byte.toNat) ⟨passed, none⟩ =
      ⟨t.reverse ++ passed, none⟩ := by
  induction t generalizing passed with
  | nil => rfl
  | cons c rest ih =>
    rw [Text.bytes, List.flatMap_cons, List.foldl_append, foldl_read_bytes, ← Text.bytes, ih]
    simp

end Decoding

/-- The characters that bytes encode, with replacements. -/
def Text.ofBytes (bytes : List UInt8) : Text :=
  (bytes.foldl (fun decoding byte => decoding.read byte.toNat) ({} : Decoding)).text

/-- Encoding a text and reading it again gives the text. -/
theorem Text.ofBytes_bytes (t : Text) : ofBytes t.bytes = t := by
  rw [ofBytes, Decoding.foldl_read_bytes_text]
  simp [Decoding.text]

end ClassFlattening
