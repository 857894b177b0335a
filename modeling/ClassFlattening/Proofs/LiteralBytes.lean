import ClassFlattening.Proofs.ByOffset.Encoding
import ClassFlattening.Proofs.MaskedLiterals

/-!
# Bytes of literals

Two texts of one size are the same when they are masked, if they differ only in bytes of literals that are no quotes,
backslashes or newlines. Characters of several bytes may stand where others stand in the other text: up to the next
sign that could end the literal, both texts are masked by the same number of fillers.
-/

namespace ClassFlattening

open Text

/-- The bytes that end a literal, or could. -/
def literalSigns : List UInt8 := ['"', '\'', '\\', '\n'].map Char.toUInt8

namespace Mode

/-- Which bytes of a text that is read from a mode on are masked. -/
def content : Mode → Text → List Bool
  | _, [] => []
  | mode, c :: rest => List.replicate c.utf8Size (mode.hides c) ++ (mode.step c rest).2.content rest

end Mode

/-- Two texts of one size, read from a mode on, that differ only in bytes of literals. No such byte ends a literal,
or could. -/
structure DifferInLiterals (mode : Mode) (s t : Text) : Prop where
  size : s.size = t.size
  literal : ∀ i < s.size, s.bytes[i]? ≠ t.bytes[i]? →
    (mode.content s)[i]? = some true ∧ t.bytes[i]? ∉ literalSigns.map some

instance (mode : Mode) (s t : Text) : Decidable (DifferInLiterals mode s t) :=
  decidable_of_iff (s.size = t.size ∧ ∀ i < s.size, s.bytes[i]? ≠ t.bytes[i]? →
      (mode.content s)[i]? = some true ∧ t.bytes[i]? ∉ literalSigns.map some)
    ⟨fun h => ⟨h.1, h.2⟩, fun h => ⟨h.size, h.literal⟩⟩

/-- A text without bytes is empty. -/
theorem eq_nil_of_size {t : Text} (h : t.size = 0) : t = [] := by
  cases t with
  | nil => rfl
  | cons c t =>
    rw [size_cons] at h
    exact absurd h (Nat.ne_of_gt (Nat.add_pos_left c.utf8Size_pos _))

section Signs

variable {mode : Mode} {c : Char} {x s t : Text} {b sign : UInt8} {i : Nat}

/-- The signs are single bytes, and no content. -/
theorem exists_of_mem_literalSigns (h : sign ∈ literalSigns) :
    ∃ d, d.toUInt8 = sign ∧ isContent d = false ∧ d.utf8Size = 1 := by
  obtain ⟨d, hd, rfl⟩ := List.mem_map.1 h
  have hsigns : ∀ d ∈ ['"', '\'', '\\', '\n'], isContent d = false ∧ d.utf8Size = 1 := forall_of_all (by decide)
  exact ⟨d, rfl, hsigns d hd⟩

/-- What is no content is one of the signs. -/
theorem mem_literalSigns (h : isContent c = false) : c.utf8Size = 1 ∧ c.toUInt8 ∈ literalSigns := by
  have hc : c ∈ ['"', '\'', '\\', '\n'] := by
    rw [isContent, isQuote] at h
    simpa [or_assoc, imp_iff_not_or] using h
  have hsize : ∀ d ∈ ['"', '\'', '\\', '\n'], d.utf8Size = 1 := forall_of_all (by decide)
  exact ⟨hsize c hc, List.mem_map_of_mem hc⟩

/-- No byte of content is a sign. -/
theorem not_mem_literalSigns (h : isContent c = true) (hb : b ∈ String.utf8EncodeChar c) : b ∉ literalSigns := by
  intro hsign
  obtain ⟨d, rfl, hd, hsize⟩ := exists_of_mem_literalSigns hsign
  by_cases hc : c.utf8Size = 1
  · rw [String.utf8EncodeChar_eq_singleton hc, List.mem_singleton] at hb
    have heq : (c == d) = true := by
      rw [← toUInt8_beq hc hsize]
      exact beq_iff_eq.2 hb.symm
    rw [eq_of_beq heq, hd] at h
    cases h
  · have hne := beq_toUInt8_of_le (le_of_mem_utf8EncodeChar hc hb) hsize
    rw [beq_self_eq_true] at hne
    cases hne

/-- A byte that is masked is no sign. -/
theorem getElem?_bytes_ne_of_content (h : (mode.content t)[i]? = some true) (hsign : sign ∈ literalSigns) :
    t.bytes[i]? ≠ some sign := by
  induction t generalizing mode i with
  | nil => cases h
  | cons c t ih =>
    rw [bytes_cons]
    rw [Mode.content] at h
    by_cases hi : i < c.utf8Size
    · rw [List.getElem?_append_left (by rwa [List.length_replicate]), List.getElem?_replicate_of_lt hi,
        Option.some.injEq, Mode.hides, Bool.and_eq_true] at h
      rw [List.getElem?_append_left (by rwa [String.length_utf8EncodeChar])]
      exact fun hbyte => not_mem_literalSigns h.2 (List.mem_of_getElem? hbyte) hsign
    · rw [List.getElem?_append_right (by rw [List.length_replicate]; exact Nat.le_of_not_lt hi),
        List.length_replicate] at h
      rw [List.getElem?_append_right (by rw [String.length_utf8EncodeChar]; exact Nat.le_of_not_lt hi),
        String.length_utf8EncodeChar]
      exact ih h

/-- Content ends in front of the first sign. -/
theorem size_takeWhile_le (h : t.bytes[i]? = some sign) (hsign : sign ∈ literalSigns) :
    Text.size (t.takeWhile isContent) ≤ i := by
  by_contra hlt
  rw [Nat.not_le, ← length_bytes] at hlt
  rw [← List.takeWhile_append_dropWhile (p := isContent) (l := t), bytes_append, List.getElem?_append_left hlt] at h
  obtain ⟨c, hc, hb⟩ := List.mem_flatMap.1 (List.mem_of_getElem? h)
  exact not_mem_literalSigns (List.mem_takeWhile_imp hc) hb hsign

/-- Content goes on up to a sign or to the end. -/
theorem exists_sign_behind_content (t : Text) :
    Text.size (t.takeWhile isContent) = t.size ∨
      ∃ sign ∈ literalSigns, t.bytes[Text.size (t.takeWhile isContent)]? = some sign := by
  have hwhole := List.takeWhile_append_dropWhile (p := isContent) (l := t)
  have hhead := List.head?_dropWhile_not isContent t
  cases hrest : t.dropWhile isContent with
  | nil =>
    rw [hrest, List.append_nil] at hwhole
    exact .inl (congrArg Text.size hwhole)
  | cons c rest =>
    rw [hrest] at hhead hwhole
    obtain ⟨hsize, hmem⟩ := mem_literalSigns (by simpa using hhead)
    refine .inr ⟨_, hmem, ?_⟩
    have hbyte := bytes_getElem?_of_narrow (List.suffix_append (t.takeWhile isContent) (c :: rest)) hsize
    rwa [offsetOf_append, hwhole] at hbyte

end Signs

section Runs

variable {mode : Mode} {quote c d : Char} {x y s t : Text} {u v : List UInt8}

/-- A character is told by what starts with its bytes. -/
theorem eq_of_utf8EncodeChar_append (h : String.utf8EncodeChar c ++ u = String.utf8EncodeChar d ++ v) : c = d := by
  have hdecode (e : Char) (w : List UInt8) :
      (String.utf8EncodeChar e ++ w).toByteArray.utf8DecodeChar? 0 = some e := by
    rw [List.toByteArray_append]
    exact ByteArray.utf8DecodeChar?_utf8EncodeChar_append
  exact Option.some.inj ((hdecode c u).symm.trans (h ▸ hdecode d v))

/-- Content behind a quote is masked by fillers, and the literal is still open behind it. -/
theorem quoted_content (hquote : isQuote quote = true) (hx : ∀ c ∈ x, isContent c = true) (rest : Text) :
    (Mode.quoted quote).content (x ++ rest) = List.replicate x.size true ++ (Mode.quoted quote).content rest ∧
      (Mode.quoted quote).mask (x ++ rest) = List.replicate x.size 'a' ++ (Mode.quoted quote).mask rest := by
  induction x with
  | nil => exact ⟨rfl, rfl⟩
  | cons c x ih =>
    have hc := hx c List.mem_cons_self
    obtain ⟨hcontent, hmask⟩ := ih fun d hd => hx d (List.mem_cons_of_mem c hd)
    have hhides : (Mode.quoted quote).hides c = true := hc
    rw [List.cons_append, Mode.content, Mode.mask, Mode.step_quoted_of_isContent hquote hc, Mode.shown, hhides,
      hcontent, hmask, size_cons, ← List.replicate_append_replicate, ← List.replicate_append_replicate,
      List.append_assoc, List.append_assoc]
    exact ⟨rfl, rfl⟩

/-- Content in a literal is masked by fillers, and the literal is still open behind it. -/
theorem exists_quoted_behind_content (hmode : mode.IsQuoting) (h : mode.isLiteral = true) :
    ∃ quote, isQuote quote = true ∧ ∀ x rest : Text, x ≠ [] → (∀ c ∈ x, isContent c = true) →
      mode.content (x ++ rest) = List.replicate x.size true ++ (Mode.quoted quote).content rest ∧
        mode.mask (x ++ rest) = List.replicate x.size 'a' ++ (Mode.quoted quote).mask rest := by
  cases mode with
  | code => cases h
  | line => cases h
  | quoted quote => exact ⟨quote, hmode, fun x rest _ hx => quoted_content hmode hx rest⟩
  | escaped quote =>
    refine ⟨quote, hmode, fun x rest hne hx => ?_⟩
    obtain ⟨c, x, rfl⟩ := List.exists_cons_of_ne_nil hne
    have hhides : (Mode.escaped quote).hides c = true := hx c List.mem_cons_self
    obtain ⟨hcontent, hmask⟩ := quoted_content hmode (fun d hd => hx d (List.mem_cons_of_mem c hd)) rest
    have hstep : (Mode.escaped quote).step c (x ++ rest) = (false, .quoted quote) := rfl
    rw [List.cons_append, Mode.content, Mode.mask, hstep, Mode.shown, hhides, hcontent, hmask, size_cons,
      ← List.replicate_append_replicate, ← List.replicate_append_replicate, List.append_assoc, List.append_assoc]
    exact ⟨rfl, rfl⟩

end Runs

namespace DifferInLiterals

variable {mode next : Mode} {c : Char} {x y s t : Text}

/-- Behind texts of one size, two such texts differ only in literals too. -/
theorem drop {u v : Text} (h : DifferInLiterals mode u v) (hu : x ++ s = u) (hv : y ++ t = v)
    (hsize : x.size = y.size) (hcontent : (mode.content u).drop x.size = next.content s) :
    DifferInLiterals next s t where
  size := by
    have hwhole := h.size
    rw [← hu, ← hv, size_append, size_append, hsize] at hwhole
    exact Nat.add_left_cancel hwhole
  literal i hi hne := by
    have hbytes {x s : Text} : (x ++ s).bytes[x.size + i]? = s.bytes[i]? := by
      rw [bytes_append, ← length_bytes, List.getElem?_append_right (Nat.le_add_right _ _), Nat.add_sub_cancel_left]
    have hliteral := h.literal (x.size + i) (by rw [← hu, size_append]; exact Nat.add_lt_add_left hi _)
    have hat : (mode.content u)[x.size + i]? = (next.content s)[i]? := by rw [← List.getElem?_drop, hcontent]
    rw [hat, ← hu, ← hv, hbytes, hsize, hbytes] at hliteral
    exact hliteral hne

/-- Signs stand at the same places. -/
theorem getElem?_bytes_iff (h : DifferInLiterals mode s t) {sign : UInt8} (hsign : sign ∈ literalSigns) (i : Nat) :
    s.bytes[i]? = some sign ↔ t.bytes[i]? = some sign := by
  by_cases heq : s.bytes[i]? = t.bytes[i]?
  · rw [heq]
  by_cases hi : i < s.size
  · obtain ⟨hcontent, ht⟩ := h.literal i hi heq
    exact iff_of_false (getElem?_bytes_ne_of_content hcontent hsign)
      fun hbyte => ht (hbyte ▸ List.mem_map_of_mem hsign)
  · rw [List.getElem?_eq_none (by rw [length_bytes]; omega),
      List.getElem?_eq_none (by rw [length_bytes, ← h.size]; omega)]

/-- Content goes equally far. -/
theorem size_takeWhile (h : DifferInLiterals mode s t) :
    Text.size (s.takeWhile isContent) = Text.size (t.takeWhile isContent) := by
  have hle (t : Text) : Text.size (t.takeWhile isContent) ≤ t.size := by
    conv_rhs => rw [← List.takeWhile_append_dropWhile (p := isContent) (l := t), size_append]
    exact Nat.le_add_right _ _
  apply Nat.le_antisymm
  · rcases exists_sign_behind_content t with hend | ⟨sign, hsign, hbyte⟩
    · rw [hend, ← h.size]
      exact hle s
    · exact size_takeWhile_le ((h.getElem?_bytes_iff hsign _).2 hbyte) hsign
  · rcases exists_sign_behind_content s with hend | ⟨sign, hsign, hbyte⟩
    · rw [hend, h.size]
      exact hle t
    · exact size_takeWhile_le ((h.getElem?_bytes_iff hsign _).1 hbyte) hsign

theorem eq_nil (h : DifferInLiterals mode [] t) : t = [] := eq_nil_of_size h.size.symm

/-- A character that is not masked stands in both texts. -/
theorem exists_cons (h : DifferInLiterals mode (c :: s) t) (hhides : mode.hides c = false) : ∃ u, t = c :: u := by
  have hbyte {i : Nat} (hi : i < c.utf8Size) : (String.utf8EncodeChar c)[i]? = t.bytes[i]? := by
    have hfirst : (Text.bytes (c :: s))[i]? = (String.utf8EncodeChar c)[i]? := by
      rw [bytes_cons, List.getElem?_append_left (by rwa [String.length_utf8EncodeChar])]
    rw [← hfirst]
    by_contra hne
    have hcontent := (h.literal i (by rw [size_cons]; exact Nat.lt_add_right _ hi) hne).1
    rw [Mode.content, hhides, List.getElem?_append_left (by rwa [List.length_replicate]),
      List.getElem?_replicate_of_lt hi] at hcontent
    cases hcontent
  have hfront : t.bytes.take c.utf8Size = String.utf8EncodeChar c := by
    apply List.ext_getElem?
    intro i
    by_cases hi : i < c.utf8Size
    · rw [List.getElem?_take_of_lt hi, hbyte hi]
    · rw [List.getElem?_eq_none (by rw [List.length_take]; omega),
        List.getElem?_eq_none (by rw [String.length_utf8EncodeChar]; omega)]
  have hbytes : String.utf8EncodeChar c ++ t.bytes.drop c.utf8Size = t.bytes := by
    rw [← hfront, List.take_append_drop]
  cases t with
  | nil => exact absurd (List.append_eq_nil_iff.1 hbytes).1 String.utf8EncodeChar_ne_nil
  | cons d t =>
    rw [bytes_cons] at hbytes
    obtain rfl := eq_of_utf8EncodeChar_append hbytes
    exact ⟨t, rfl⟩

theorem head?_eq (h : DifferInLiterals mode s t) (hmode : mode.isLiteral = false) : s.head? = t.head? := by
  cases s with
  | nil => rw [h.eq_nil]
  | cons c s =>
    obtain ⟨t, rfl⟩ := h.exists_cons (by rw [Mode.hides, hmode]; rfl)
    rfl

/-- Behind a character that is not masked two such texts differ only in literals. -/
theorem tail (h : DifferInLiterals mode (c :: s) (c :: t)) : DifferInLiterals (mode.step c s).2 s t := by
  refine h.drop (x := [c]) (y := [c]) rfl rfl rfl ?_
  rw [Mode.content, List.drop_left']
  rw [List.length_replicate, size_cons]
  rfl

/-- Two texts that differ only in literals are masked as one. -/
theorem mask_eq (h : DifferInLiterals mode s t) (hmode : mode.IsQuoting) : mode.mask s = mode.mask t := by
  induction hn : s.length using Nat.strong_induction_on generalizing mode s t with
  | _ n ih =>
    subst hn
    cases s with
    | nil => rw [h.eq_nil]
    | cons c s =>
      cases hhides : mode.hides c with
      | false =>
        obtain ⟨t, rfl⟩ := h.exists_cons hhides
        have hstep : mode.step c s = mode.step c t := by
          cases hopen : (mode.step c s).2.isLiteral with
          | true => exact Mode.step_of_isLiteral hopen t
          | false => exact Mode.step_congr (h.tail.head?_eq hopen) mode c
        have hrest := ih s.length (Nat.lt_succ_self _) h.tail (hmode.step c s) rfl
        rw [Mode.mask, Mode.mask, hrest, hstep]
      | true =>
        rw [Mode.hides, Bool.and_eq_true] at hhides
        -- both literals go on to the next sign, and are masked by as many fillers
        obtain ⟨quote, hquote, hrun⟩ := exists_quoted_behind_content hmode hhides.1
        have hsize := h.size_takeWhile
        have hs : (c :: s).takeWhile isContent ≠ [] := by
          rw [List.takeWhile_cons_of_pos hhides.2]
          exact List.cons_ne_nil _ _
        have ht : t.takeWhile isContent ≠ [] := by
          intro hnil
          rw [hnil] at hsize
          exact hs (eq_nil_of_size hsize)
        have hmask (u : Text) (hu : u.takeWhile isContent ≠ []) := hrun (u.takeWhile isContent)
          (u.dropWhile isContent) hu fun d hd => List.mem_takeWhile_imp hd
        simp only [List.takeWhile_append_dropWhile] at hmask
        obtain ⟨hcontent, hmasked⟩ := hmask (c :: s) hs
        have hrest : DifferInLiterals (.quoted quote) ((c :: s).dropWhile isContent) (t.dropWhile isContent) := by
          refine h.drop List.takeWhile_append_dropWhile List.takeWhile_append_dropWhile hsize ?_
          rw [hcontent, List.drop_left']
          exact List.length_replicate
        have hlt : ((c :: s).dropWhile isContent).length < (c :: s).length := by
          rw [List.dropWhile_cons_of_pos hhides.2]
          exact Nat.lt_succ_of_le (List.dropWhile_suffix _).length_le
        rw [hmasked, (hmask t ht).2, ih _ hlt hrest hquote rfl, hsize]

end DifferInLiterals

end ClassFlattening
