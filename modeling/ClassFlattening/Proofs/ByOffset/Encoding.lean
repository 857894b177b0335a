import ClassFlattening.Proofs.ByOffset.Steps

/-!
# Single bytes of an encoded text

A character of one byte is told by its byte. All bytes of the other characters are at least 128, so none
of them is mistaken for a character of one byte, and a loop that passes such bytes passes the character
wherever in it the loop starts.
-/

namespace ClassFlattening

namespace Text

/-- The number of the byte of a one-byte character. -/
theorem toNat_toUInt8 {c : Char} (hc : c.utf8Size = 1) :
    c.toUInt8.toNat = c.toNat ∧ c.toNat < 128 := by
  rw [Char.utf8Size_eq_one_iff, UInt32.le_iff_toNat_le] at hc
  have hlt : c.toNat < 128 := Nat.lt_succ_of_le hc
  refine ⟨?_, hlt⟩
  rw [Char.toUInt8, UInt32.toNat_toUInt8]
  exact Nat.mod_eq_of_lt (Nat.lt_trans hlt (by decide))

/-- Characters of one byte are told apart by their bytes. -/
theorem toUInt8_beq {c d : Char} (hc : c.utf8Size = 1) (hd : d.utf8Size = 1) :
    (c.toUInt8 == d.toUInt8) = (c == d) := by
  rw [Bool.eq_iff_iff, beq_iff_eq, beq_iff_eq]
  constructor
  · intro h
    have hnat := congrArg UInt8.toNat h
    rw [(toNat_toUInt8 hc).1, (toNat_toUInt8 hd).1] at hnat
    exact Char.toNat_inj.1 hnat
  · intro h
    rw [h]

/-- A byte of at least 128 is no character of one byte. -/
theorem beq_toUInt8_of_le {b : UInt8} {d : Char} (hb : 128 ≤ b.toNat) (hd : d.utf8Size = 1) :
    (b == d.toUInt8) = false := by
  rw [beq_eq_false_iff_ne]
  intro h
  rw [h, (toNat_toUInt8 hd).1] at hb
  exact Nat.not_le_of_lt (toNat_toUInt8 hd).2 hb

/-- A character of several bytes is no character of one byte. -/
theorem beq_of_utf8Size_ne {c d : Char} (hc : c.utf8Size ≠ 1) (hd : d.utf8Size = 1) :
    (c == d) = false := by
  rw [beq_eq_false_iff_ne]
  intro h
  exact hc (h ▸ hd)

/-- The bytes of a character of several bytes are at least 128. -/
theorem le_of_mem_utf8EncodeChar {c : Char} (hc : c.utf8Size ≠ 1) {b : UInt8}
    (hb : b ∈ String.utf8EncodeChar c) : 128 ≤ b.toNat := by
  have hlarge : ¬ c.val.toNat ≤ 127 := by
    rw [Ne, Char.utf8Size_eq_one_iff, UInt32.le_iff_toNat_le] at hc
    exact hc
  rw [String.utf8EncodeChar] at hb
  simp only [hlarge, if_false] at hb
  split at hb
  · simp only [List.mem_cons, List.not_mem_nil, or_false] at hb
    rcases hb with rfl | rfl <;> rw [UInt8.toNat_ofNat'] <;> omega
  · split at hb
    · simp only [List.mem_cons, List.not_mem_nil, or_false] at hb
      rcases hb with rfl | rfl | rfl <;> rw [UInt8.toNat_ofNat'] <;> omega
    · simp only [List.mem_cons, List.not_mem_nil, or_false] at hb
      rcases hb with rfl | rfl | rfl | rfl <;> rw [UInt8.toNat_ofNat'] <;> omega

section Bytes

variable {whole t : Text} {c : Char}

@[simp] theorem bytes_append (s t : Text) : (s ++ t).bytes = s.bytes ++ t.bytes :=
  List.flatMap_append

theorem bytes_cons (c : Char) (t : Text) : bytes (c :: t) = String.utf8EncodeChar c ++ t.bytes :=
  List.flatMap_cons

/-- The bytes from the offset of a rest on are those of the rest. -/
theorem drop_bytes_offsetOf (h : t <:+ whole) : whole.bytes.drop (whole.offsetOf t) = t.bytes := by
  obtain ⟨front, rfl⟩ := h
  rw [offsetOf_append, bytes_append, ← length_bytes, List.drop_left]

/-- The byte at the offset of a rest is the first byte of the rest. -/
theorem bytes_getElem?_offsetOf (h : t <:+ whole) (n : Nat) :
    whole.bytes[whole.offsetOf t + n]? = t.bytes[n]? := by
  rw [← drop_bytes_offsetOf h, List.getElem?_drop]

/-- The byte at the offset of a one-byte character is the character. -/
theorem bytes_getElem?_of_narrow (h : c :: t <:+ whole) (hc : c.utf8Size = 1) :
    whole.bytes[whole.offsetOf (c :: t)]? = some c.toUInt8 := by
  have hbyte := bytes_getElem?_offsetOf h 0
  rw [Nat.add_zero, bytes_cons, String.utf8EncodeChar_eq_singleton hc] at hbyte
  rw [hbyte]
  rfl

/-- All bytes of a character of several bytes are at least 128. -/
theorem exists_byte_of_wide (h : c :: t <:+ whole) (hc : c.utf8Size ≠ 1) {i : Nat}
    (hi : whole.offsetOf (c :: t) ≤ i) (hlt : i < whole.offsetOf t) :
    ∃ b, whole.bytes[i]? = some b ∧ 128 ≤ b.toNat := by
  obtain ⟨n, rfl⟩ := Nat.exists_eq_add_of_le hi
  have hsize : n < (String.utf8EncodeChar c).length := by
    have hadd := offsetOf_add (s := [c]) h
    rw [List.singleton_append, size_cons, size_nil] at hadd
    rw [String.length_utf8EncodeChar]
    omega
  refine ⟨(String.utf8EncodeChar c)[n], ?_, le_of_mem_utf8EncodeChar hc (List.getElem_mem hsize)⟩
  rw [bytes_getElem?_offsetOf h, bytes_cons, List.getElem?_append_left hsize,
    List.getElem?_eq_getElem hsize]

/-- What does not change from one byte of at least 128 to the next does not change from within a
character of several bytes to the text behind it. -/
theorem pass_wide {α : Type} (f : Nat → α) (h : c :: t <:+ whole) (hc : c.utf8Size ≠ 1)
    (hstep : ∀ i b, whole.bytes[i]? = some b → 128 ≤ b.toNat → f i = f (i + 1)) {i : Nat}
    (hi : whole.offsetOf (c :: t) ≤ i) (hle : i ≤ whole.offsetOf t) : f i = f (whole.offsetOf t) := by
  obtain ⟨n, hn⟩ := Nat.exists_eq_add_of_le hle
  induction n generalizing i with
  | zero => rw [hn, Nat.add_zero]
  | succ n ih =>
    obtain ⟨b, hbyte, hb⟩ := exists_byte_of_wide h hc hi (by omega)
    rw [hstep i b hbyte hb]
    exact ih (Nat.le_succ_of_le hi) (by omega) (by omega)

/-- A byte of a text is a one-byte character exactly if the character starts there. -/
theorem bytes_getElem?_eq_some_iff (hc : c.utf8Size = 1) {offset : Nat} :
    whole.bytes[offset]? = some c.toUInt8 ↔ ∃ front t, whole = front ++ c :: t ∧ front.size = offset := by
  constructor
  · intro h
    induction whole generalizing offset with
    | nil => cases h
    | cons d rest ih =>
      rw [bytes_cons] at h
      rcases Nat.lt_or_ge offset d.utf8Size with hlt | hge
      · rw [List.getElem?_append_left (by rwa [String.length_utf8EncodeChar])] at h
        by_cases hd : d.utf8Size = 1
        · obtain rfl : offset = 0 := by omega
          rw [String.utf8EncodeChar_eq_singleton hd] at h
          have heq : d = c := by
            rw [← beq_iff_eq, ← toUInt8_beq hd hc, beq_iff_eq]
            exact Option.some.inj h
          exact ⟨[], rest, by rw [heq, List.nil_append], rfl⟩
        · -- The bytes of a character of several bytes are no one-byte characters.
          have hlarge := beq_toUInt8_of_le (le_of_mem_utf8EncodeChar hd (List.mem_of_getElem? h)) hc
          rw [beq_self_eq_true] at hlarge
          cases hlarge
      · rw [List.getElem?_append_right (by rwa [String.length_utf8EncodeChar]),
          String.length_utf8EncodeChar] at h
        obtain ⟨front, t, rfl, hsize⟩ := ih h
        refine ⟨d :: front, t, rfl, ?_⟩
        rw [size_cons, hsize]
        omega
  · rintro ⟨front, t, rfl, rfl⟩
    rw [← offsetOf_append front (c :: t)]
    exact bytes_getElem?_of_narrow (List.suffix_append _ _) hc

/-- The first byte that is a one-byte character is that of the first such character. -/
theorem findIdx?_bytes (hc : c.utf8Size = 1) (t : Text) :
    t.bytes.findIdx? (· == c.toUInt8) = firstOffset? (· == c) t := by
  induction t with
  | nil => rfl
  | cons d rest ih =>
    have hfirst : firstOffset? (· == c) (d :: rest) =
        if d == c then some 0 else (firstOffset? (· == c) rest).map (d.utf8Size + ·) := by
      rw [firstOffset?, firstOffset?, cutAtFirst?, cutWhere_cons]
      cases d == c with
      | true => rfl
      | false =>
        rw [cutAtFirst?]
        simp only [Bool.false_eq_true, if_false, Option.map_map, Function.comp_def, size_cons]
    rw [hfirst, bytes_cons, List.findIdx?_append, ih, String.length_utf8EncodeChar]
    by_cases hd : d.utf8Size = 1
    · rw [String.utf8EncodeChar_eq_singleton hd]
      change Option.or (List.findIdx? _ [d.toUInt8]) _ = _
      rw [List.findIdx?_singleton, toUInt8_beq hd hc]
      cases d == c with
      | true => rfl
      | false => simp [Nat.add_comm]
    · have hnone : (String.utf8EncodeChar d).findIdx? (· == c.toUInt8) = none := by
        rw [List.findIdx?_eq_none_iff]
        intro b hb
        exact beq_toUInt8_of_le (le_of_mem_utf8EncodeChar hd hb) hc
      rw [hnone, beq_of_utf8Size_ne hd hc]
      simp [Nat.add_comm]

end Bytes

end Text

end ClassFlattening
