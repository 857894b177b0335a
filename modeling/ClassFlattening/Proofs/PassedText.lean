import ClassFlattening.Proofs.Listing
import ClassFlattening.Proofs.Outline
import ClassFlattening.Proofs.SitePieces

/-!
# Texts that a search passes

A search of the code that does not end in a text is behind it in some mode and some state, and it goes on
from there. A text is passable for a search outside all brackets if the search is behind it as it was in
front of it, in code and outside all brackets. In such a text comments and lines of multiline literals may
stand, as long as none of them is open at its end; its brackets are counted, whatever their kinds. Texts
that are balanced are passable.
-/

namespace ClassFlattening

/-- The mode behind a text that is read from a mode on. -/
def Mode.past : Mode → Text → Mode
  | mode, [] => mode
  | mode, c :: rest => (mode.step c rest).2.past rest

namespace Text

section Walk

variable {σ : Type} {verdict : σ → Char → Verdict σ} {s t : Text} {state next : Mode × σ} {cut : Cut}

/-- The mode and the state in which a search of the code is behind a text, or none if it ends in the
text. -/
def walk (verdict : σ → Char → Verdict σ) : Mode × σ → Text → Option (Mode × σ)
  | state, [] => some state
  | state, c :: rest =>
    match codeVerdict verdict state c rest with
    | .pass next => walk verdict next rest
    | _ => none

/-- A search that passes a text passes its first character, and from there the rest. -/
theorem walk_cons_eq_some_iff {c : Char} :
    walk verdict state (c :: t) = some next ↔
      ∃ between, codeVerdict verdict state c t = .pass between ∧ walk verdict between t = some next := by
  rw [walk]
  cases codeVerdict verdict state c t <;> simp

/-- A search decides alike in front of every text that the one it is in is apart from. -/
theorem codeVerdict_append {c : Char} (h : Apart (c :: s) t) :
    codeVerdict verdict state c (s ++ t) = codeVerdict verdict state c s := by
  rw [codeVerdict, codeVerdict, step_append _ h]

/-- A walk through two texts that are apart. -/
theorem walk_append (h : Apart s t) :
    walk verdict state (s ++ t) = (walk verdict state s).bind fun next => walk verdict next t := by
  induction s generalizing state with
  | nil => rfl
  | cons c s ih =>
    rw [List.cons_append, walk, walk, codeVerdict_append h]
    cases codeVerdict verdict state c s with
    | pass next => exact ih h.tail
    | stop => rfl
    | fail => rfl

/-- A search goes on behind a text that it passes. -/
theorem cutWhere_append_of_walk (h : Apart s t) (hwalk : walk verdict state s = some next) :
    cutWhere (codeVerdict verdict) state (s ++ t) =
      (cutWhere (codeVerdict verdict) next t).map fun cut => ⟨s ++ cut.before, cut.after⟩ := by
  induction s generalizing state with
  | nil =>
    cases hwalk
    simp
  | cons c s ih =>
    obtain ⟨between, hverdict, hrest⟩ := walk_cons_eq_some_iff.1 hwalk
    rw [List.cons_append, cutWhere_cons, codeVerdict_append h, hverdict]
    simp only [ih h.tail hrest, Option.map_map]
    rfl

/-- A search finds nothing in a text that it passes. -/
theorem cutWhere_eq_none_of_walk (hwalk : walk verdict state t = some next) :
    cutWhere (codeVerdict verdict) state t = none := by
  have h := cutWhere_append_of_walk (apart_of_head (t := []) (by simp)) hwalk
  rwa [List.append_nil] at h

/-- What a search finds in a text it finds in front of every text that this one is apart from. -/
theorem cutWhere_append_of_some (h : Apart s t)
    (hcut : cutWhere (codeVerdict verdict) state s = some cut) :
    cutWhere (codeVerdict verdict) state (s ++ t) = some ⟨cut.before, cut.after ++ t⟩ := by
  induction s generalizing state cut with
  | nil => cases hcut
  | cons c s ih =>
    rw [List.cons_append, cutWhere_cons, codeVerdict_append h]
    rcases cutWhere_cases hcut with ⟨hverdict, rfl⟩ | ⟨between, inner, hverdict, hinner, rfl⟩
    · rw [hverdict]
      rfl
    · rw [hverdict]
      simp only [ih h.tail hinner, Option.map_some]

/-- A search passes what is in front of the place that it finds. -/
theorem exists_walk_of_cutWhere (hcut : cutWhere (codeVerdict verdict) state t = some cut)
    (h : Apart cut.before cut.after) :
    ∃ next c rest, walk verdict state cut.before = some next ∧ cut.after = c :: rest ∧
      codeVerdict verdict next c rest = .stop := by
  induction t generalizing state cut with
  | nil => cases hcut
  | cons c t ih =>
    rcases cutWhere_cases hcut with ⟨hstop, rfl⟩ | ⟨between, inner, hverdict, hinner, rfl⟩
    · exact ⟨state, c, t, rfl, rfl, hstop⟩
    · obtain ⟨next, d, rest, hwalk, hafter, hstop⟩ := ih hinner h.tail
      rw [← whole_of_cutWhere _ hinner, Cut.whole, codeVerdict_append h] at hverdict
      exact ⟨next, d, rest, walk_cons_eq_some_iff.2 ⟨between, hverdict, hwalk⟩, hafter, hstop⟩

/-- A walk through a text follows its code, and it leads to the mode behind the text. -/
theorem walk_of_passAll {mode : Mode} {before after : σ}
    (hpass : passAll verdict before (mode.codeOf t) = some after) :
    walk verdict (mode, before) t = some (mode.past t, after) := by
  induction t generalizing mode before with
  | nil =>
    rw [Mode.codeOf_nil] at hpass
    cases hpass
    rfl
  | cons c t ih =>
    rw [Mode.codeOf_cons] at hpass
    rw [walk_cons_eq_some_iff, Mode.past]
    split at hpass
    · next hcode =>
      rw [passAll] at hpass
      cases hverdict : verdict before c with
      | pass between =>
        rw [hverdict] at hpass
        have hstep : codeVerdict verdict (mode, before) c t = .pass ((mode.step c t).2, between) :=
          codeVerdict_eq_pass_iff.2 ⟨rfl, fun _ => hverdict, fun h => by simp [hcode] at h⟩
        exact ⟨_, hstep, ih hpass⟩
      | stop => simp [hverdict] at hpass
      | fail => simp [hverdict] at hpass
    · next hcode =>
      have hstep : codeVerdict verdict (mode, before) c t = .pass ((mode.step c t).2, before) :=
        codeVerdict_eq_pass_iff.2 ⟨rfl, fun h => absurd h hcode, fun _ => rfl⟩
      exact ⟨_, hstep, ih hpass⟩

end Walk

end Text

namespace Mode

/-- A mode is no literal, or one that a quote opens. -/
def IsQuoting : Mode → Prop
  | quoted quote | escaped quote => isQuote quote = true
  | _ => True

/-- What a text ends in if no comment stands in it is the mode behind it. -/
theorem past_of_endOf {mode mode' : Mode} {t : Text} (h : mode.endOf t = some mode') : mode.past t = mode' := by
  induction t generalizing mode with
  | nil => exact Option.some.inj h
  | cons c t ih =>
    rw [Mode.endOf] at h
    split at h
    · cases h
    · exact ih h

/-- Literals are opened by quotes. -/
theorem IsQuoting.step {mode : Mode} (h : mode.IsQuoting) (c : Char) (rest : Text) :
    (mode.step c rest).2.IsQuoting := by
  cases mode with
  | code =>
    rw [Mode.step, Mode.read]
    split
    · next hquote => exact hquote
    · split
      · trivial
      · trivial
  | quoted quote =>
    rw [Mode.step, Mode.read]
    split
    · exact h
    · split
      · trivial
      · split
        · trivial
        · exact h
  | escaped quote => exact h
  | line =>
    rw [Mode.step, Mode.read]
    split
    · trivial
    · trivial

/-- A blank that does not end the line leads from code alone to code. -/
theorem step_blank {mode : Mode} (h : mode.IsQuoting) {c : Char} (hc : isBlank c = true) (hline : c ≠ '\n')
    (rest : Text) :
    (mode = .code ∧ mode.step c rest = (true, .code)) ∨
      (mode ≠ .code ∧ (mode.step c rest).1 = false ∧ (mode.step c rest).2 ≠ .code) := by
  have hplain := Text.isPlain_iff.1 (Text.isPlain_of_isBlank hc rfl : Text.isPlain Text.never c = true)
  cases mode with
  | code => exact Or.inl ⟨rfl, Text.step_of_isCodeChar hplain.1⟩
  | quoted quote =>
    have hquote : c ≠ quote := by
      rintro rfl
      rw [Text.isCodeChar, h] at hplain
      cases hplain.1
    refine Or.inr ⟨by simp, ?_⟩
    rw [Mode.step, Mode.read, if_neg hline, if_neg hquote]
    split
    · simp
    · simp
  | escaped quote => exact Or.inr ⟨by simp, rfl, by simp⟩
  | line =>
    refine Or.inr ⟨by simp, ?_⟩
    rw [Mode.step, Mode.read, if_neg hline]
    simp

end Mode

namespace Text

section TopLevel

variable {ends inner : Char → Bool} {s t : Text} {c : Char}

/-- A search that is passed where nothing ends it is passed with ends, or stops at one. -/
theorem topLevelVerdict_of_never {depth depth' : Nat}
    (h : topLevelVerdict never depth c = .pass depth') :
    topLevelVerdict ends depth c = .pass depth' ∨ topLevelVerdict ends depth c = .stop := by
  have hnever : (decide (depth = 0) && never c) = false := Bool.and_false _
  rw [topLevelVerdict, hnever] at h
  cases hstop : decide (depth = 0) && ends c with
  | true => exact Or.inr (by rw [topLevelVerdict, hstop]; rfl)
  | false => exact Or.inl (by rw [topLevelVerdict, hstop]; exact h)

/-- What passes with ends passes where nothing ends it. -/
theorem topLevelVerdict_never {depth depth' : Nat} (h : topLevelVerdict ends depth c = .pass depth') :
    topLevelVerdict never depth c = .pass depth' := by
  have hnever : (decide (depth = 0) && never c) = false := Bool.and_false _
  rw [topLevelVerdict, hnever]
  rw [topLevelVerdict] at h
  split at h
  · cases h
  · exact h

/-- A search outside all brackets stops at one of its own characters, outside all brackets. -/
theorem topLevelVerdict_eq_stop_iff {depth : Nat} :
    topLevelVerdict ends depth c = .stop ↔ depth = 0 ∧ ends c = true := by
  rw [topLevelVerdict]
  split
  · next h => simpa using h
  · next h =>
    refine iff_of_false ?_ (by simpa using h)
    split
    · simp
    · split
      · split <;> simp
      · simp

/-- A character is passed with ends exactly if it is passed without and the search does not stop at it. -/
theorem codeVerdict_topLevelVerdict_iff {state next : Mode × Nat} :
    codeVerdict (topLevelVerdict ends) state c t = .pass next ↔
      codeVerdict (topLevelVerdict never) state c t = .pass next ∧
        codeVerdict (topLevelVerdict ends) state c t ≠ .stop := by
  constructor
  · intro h
    refine ⟨?_, by simp [h]⟩
    rw [codeVerdict_eq_pass_iff] at h ⊢
    exact ⟨h.1, fun hcode => topLevelVerdict_never (h.2.1 hcode), h.2.2⟩
  · rintro ⟨h, hstop⟩
    rw [Ne, codeVerdict_eq_stop_iff, not_and] at hstop
    rw [codeVerdict_eq_pass_iff] at h ⊢
    exact ⟨h.1, fun hcode => (topLevelVerdict_of_never (h.2.1 hcode)).resolve_right (hstop hcode), h.2.2⟩

/-- A text is passed with ends exactly if it is passed without and no end is found in it. -/
theorem walk_topLevelVerdict_iff {state next : Mode × Nat} :
    walk (topLevelVerdict ends) state t = some next ↔
      walk (topLevelVerdict never) state t = some next ∧
        cutWhere (codeVerdict (topLevelVerdict ends)) state t = none := by
  constructor
  · intro h
    refine ⟨?_, cutWhere_eq_none_of_walk h⟩
    induction t generalizing state with
    | nil => exact h
    | cons c t ih =>
      obtain ⟨between, hverdict, hrest⟩ := walk_cons_eq_some_iff.1 h
      exact walk_cons_eq_some_iff.2 ⟨between, (codeVerdict_topLevelVerdict_iff.1 hverdict).1, ih hrest⟩
  · rintro ⟨h, hnone⟩
    induction t generalizing state with
    | nil => exact h
    | cons c t ih =>
      obtain ⟨between, hverdict, hrest⟩ := walk_cons_eq_some_iff.1 h
      rw [cutWhere_cons] at hnone
      have hstop : codeVerdict (topLevelVerdict ends) state c t ≠ .stop := by
        intro hstop
        simp [hstop] at hnone
      have hpass := codeVerdict_topLevelVerdict_iff.2 ⟨hverdict, hstop⟩
      simp only [hpass, Option.map_eq_none_iff] at hnone
      exact walk_cons_eq_some_iff.2 ⟨between, hpass, ih hrest hnone⟩

/-- A search that starts in a mode that no other than a quote has opened stays in such modes. -/
theorem isQuoting_of_walk {σ : Type} {verdict : σ → Char → Verdict σ} {state next : Mode × σ}
    (h : state.1.IsQuoting) (hwalk : walk verdict state t = some next) : next.1.IsQuoting := by
  induction t generalizing state with
  | nil =>
    cases hwalk
    exact h
  | cons c t ih =>
    obtain ⟨between, hverdict, hrest⟩ := walk_cons_eq_some_iff.1 hwalk
    exact ih ((codeVerdict_eq_pass_iff.1 hverdict).1 ▸ h.step c t) hrest

/-- Blanks that end no line lead to code outside all brackets only from there. -/
theorem eq_of_walk_blanks {state : Mode × Nat} (h : state.1.IsQuoting) (ht : t.allBlank = true)
    (hline : '\n' ∉ t) (hwalk : walk (topLevelVerdict ends) state t = some (.code, 0)) :
    state = (.code, 0) := by
  induction t generalizing state with
  | nil => exact Option.some.inj hwalk
  | cons c t ih =>
    rw [allBlank, List.all_cons, Bool.and_eq_true] at ht
    rw [List.mem_cons, not_or] at hline
    obtain ⟨⟨mode, depth⟩, hverdict, hrest⟩ := walk_cons_eq_some_iff.1 hwalk
    obtain ⟨hmode, hpass, -⟩ := codeVerdict_eq_pass_iff.1 hverdict
    -- The rest leads from code outside all brackets, so the first blank leads there.
    obtain ⟨rfl, rfl⟩ := Prod.mk.inj (ih (hmode ▸ h.step c t) ht.2 hline.2 hrest)
    rcases Mode.step_blank h ht.1 (Ne.symm hline.1) t with ⟨hcode, hstep⟩ | ⟨-, -, hnext⟩
    · obtain ⟨-, hbracket, -⟩ := isPlain_iff.1 (isPlain_of_isBlank ht.1 rfl : isPlain never c = true)
      rw [Bool.or_eq_false_iff] at hbracket
      have hdepth := topLevelVerdict_never (hpass (congrArg Prod.fst hstep))
      simp only [topLevelVerdict, never, Bool.and_false, Bool.false_eq_true, if_false, hbracket] at hdepth
      exact Prod.ext hcode (Verdict.pass.inj hdepth)
    · exact absurd hmode hnext

/-- A text is passable in front of some characters: a search outside all brackets for one of them is behind
it as it was in front of it. -/
def Passable (ends : Char → Bool) (t : Text) : Prop :=
  walk (topLevelVerdict ends) (.code, 0) t = some (.code, 0)

instance (ends : Char → Bool) (t : Text) : Decidable (t.Passable ends) :=
  inferInstanceAs (Decidable (_ = _))

/-- A text is passable in front of some characters exactly if it is passable and none of them is found in
it. -/
theorem passable_iff : t.Passable ends ↔ t.Passable never ∧ t.cutAtTopLevel? ends = none := by
  rw [Passable, walk_topLevelVerdict_iff, cutAtTopLevel?, cutInCode_eq_cutWhere]
  rfl

/-- A balanced text is passable. -/
theorem Balanced.passable (h : t.Balanced ends) : t.Passable ends :=
  (walk_of_passAll h.passAll_topLevelVerdict).trans (by rw [Mode.past_of_endOf h.closed])

/-- Behind a passable text a text is passable exactly if both together are. -/
theorem Passable.append_iff (hs : s.Passable ends) (h : Apart s t) :
    (s ++ t).Passable ends ↔ t.Passable ends := by
  rw [Passable, walk_append h, hs]
  rfl

/-- Behind a passable text a search finds something exactly if it finds it in both together. -/
theorem Passable.cutAtTopLevel?_append (hs : s.Passable ends) (h : Apart s t) :
    (s ++ t).cutAtTopLevel? ends = (t.cutAtTopLevel? ends).map fun cut => ⟨s ++ cut.before, cut.after⟩ := by
  rw [Text.cutAtTopLevel?, Text.cutAtTopLevel?, cutInCode_eq_cutWhere, cutInCode_eq_cutWhere,
    cutWhere_append_of_walk h hs]

/-- Where a search finds nothing, it finds nothing in front. -/
theorem cutAtTopLevel?_eq_none_of_append (h : Apart s t) (hnone : (s ++ t).cutAtTopLevel? ends = none) :
    s.cutAtTopLevel? ends = none := by
  rw [cutAtTopLevel?, cutInCode_eq_cutWhere] at hnone ⊢
  cases hcut : cutWhere (codeVerdict (topLevelVerdict ends)) (.code, 0) s with
  | none => rfl
  | some cut =>
    rw [cutWhere_append_of_some h hcut] at hnone
    cases hnone

/-- A character that is no newline is code just where it is read in code. -/
theorem eq_code_of_step {mode : Mode} {rest : Text} (hline : c ≠ '\n') (h : (mode.step c rest).1 = true) :
    mode = .code := by
  cases mode with
  | code => rfl
  | quoted quote =>
    rw [Mode.step, Mode.read, if_neg hline] at h
    split at h
    · cases h
    · split at h
      · cases h
      · cases h
  | escaped quote => cases h
  | line =>
    rw [Mode.step, Mode.read, if_neg hline] at h
    cases h

/-- A search outside all brackets stops at one of its own characters, in code and outside all brackets. -/
theorem of_codeVerdict_eq_stop {state : Mode × Nat} {rest : Text}
    (h : codeVerdict (topLevelVerdict ends) state c rest = .stop) :
    ends c = true ∧ (c ≠ '\n' → state = (.code, 0)) := by
  obtain ⟨hcode, hstop⟩ := codeVerdict_eq_stop_iff.1 h
  obtain ⟨hdepth, hends⟩ := topLevelVerdict_eq_stop_iff.1 hstop
  exact ⟨hends, fun hline => Prod.ext (eq_code_of_step hline hcode) hdepth⟩

/-- A search stops at a character of its own exactly if it passes what is in front of it. -/
theorem cutAtTopLevel?_eq_iff (hends : ends c = true) (hcode : isCodeChar c = true) (hline : c ≠ '\n')
    (rest : Text) : (s ++ c :: rest).cutAtTopLevel? ends = some ⟨s, c :: rest⟩ ↔ s.Passable ends := by
  have hapart : Apart s (c :: rest) := apart_cons hcode
  constructor
  · intro h
    rw [cutAtTopLevel?, cutInCode_eq_cutWhere] at h
    obtain ⟨state, d, more, hwalk, hafter, hstop⟩ := exists_walk_of_cutWhere h hapart
    cases hafter
    rw [(of_codeVerdict_eq_stop hstop).2 hline] at hwalk
    exact hwalk
  · intro h
    have hstop : Text.cutAtTopLevel? (c :: rest) ends = some ⟨[], c :: rest⟩ := by
      rw [cutAtTopLevel?, cutInCode_eq_cutWhere, cutWhere_cons, codeVerdict, step_of_isCodeChar hcode]
      simp [topLevelVerdict, hends]
    rw [h.cutAtTopLevel?_append hapart, hstop, Option.map_some, List.append_nil]

/-- Where a search finds nothing, it finds nothing in what trimming leaves. -/
theorem cutAtTopLevel?_trim_eq_none (hends : ∀ c, isBlank c = true → ends c = false)
    (hnone : t.cutAtTopLevel? ends = none) : t.trim.cutAtTopLevel? ends = none := by
  obtain ⟨front, back, ht, hfront, hback⟩ := t.exists_blanks
  rw [ht] at hnone
  have hboth := cutAtTopLevel?_eq_none_of_append (apart_of_allBlank_right hback) hnone
  rw [(balanced_of_allBlank hfront hends).passable.cutAtTopLevel?_append (apart_of_allBlank_left hfront),
    Option.map_eq_none_iff] at hboth
  exact hboth

/-- A search for a character cuts off a passable text, in front of the character. -/
theorem passable_of_cutAtTopLevel? (hcode : isCodeChar c = true) (hline : c ≠ '\n') {cut : Cut}
    (h : t.cutAtTopLevel? (· == c) = some cut) :
    t = cut.before ++ c :: cut.behind ∧ cut.before.Passable (· == c) := by
  have hsearch := h
  rw [cutAtTopLevel?, cutInCode_eq_cutWhere] at hsearch
  obtain ⟨state, d, rest, hafter, hstop⟩ := exists_stop_of_cutWhere hsearch
  obtain rfl : d = c := eq_of_beq (of_codeVerdict_eq_stop hstop).1
  have hwhole := whole_of_cutWhere _ hsearch
  rw [Cut.whole, hafter] at hwhole
  have hbehind : cut.behind = rest := by rw [Cut.behind, hafter, List.tail_cons]
  rw [hbehind]
  have hcut : (cut.before ++ d :: rest).cutAtTopLevel? (· == d) = some ⟨cut.before, d :: rest⟩ := by
    rw [hwhole, h, ← hafter]
  exact ⟨hwhole.symm, (cutAtTopLevel?_eq_iff (by simp) hcode hline rest).1 hcut⟩

/-- No piece of a list has a separator in it. -/
theorem cutAtTopLevel?_of_mem_splitTopLevel (hcode : isCodeChar c = true) (hblank : isBlank c = false)
    {piece : Text} (hpiece : piece ∈ t.splitTopLevel c) : piece.cutAtTopLevel? (· == c) = none := by
  have hends : ∀ d, isBlank d = true → (d == c) = false := by
    intro d hd
    rw [beq_eq_false_iff_ne]
    rintro rfl
    rw [hblank] at hd
    cases hd
  have hline : c ≠ '\n' := by
    rintro rfl
    exact absurd hblank (by decide)
  have hpieces := (List.mem_filter.1 hpiece).1
  clear hpiece
  fun_induction topLevelPieces t c with
  | case1 t cut hcut ih =>
    rcases List.mem_cons.1 hpieces with rfl | hrest
    · have hpass := (passable_of_cutAtTopLevel? hcode hline hcut).2
      exact cutAtTopLevel?_trim_eq_none hends (passable_iff.1 hpass).2
    · exact ih hrest
  | case2 t hnone =>
    rw [List.mem_singleton.1 hpieces]
    exact cutAtTopLevel?_trim_eq_none hends hnone

/-- A text is passable if it is with blanks behind it, the end of the line apart. -/
theorem Passable.of_append_blanks (h : (s ++ t).Passable ends) (ht : t.allBlank = true)
    (hline : '\n' ∉ t) : s.Passable ends := by
  rw [Passable, walk_append (apart_of_allBlank_right ht)] at h
  obtain ⟨⟨mode, depth⟩, hwalk, hblanks⟩ := Option.bind_eq_some_iff.1 h
  have hcode : Mode.code.IsQuoting := trivial
  rw [eq_of_walk_blanks (isQuoting_of_walk hcode hwalk) ht hline hblanks] at hwalk
  exact hwalk

end TopLevel

end Text

end ClassFlattening
