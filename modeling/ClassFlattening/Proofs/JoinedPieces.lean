import ClassFlattening.Proofs.Remarks

/-!
# Taking a joined list apart

A piece of a list starts and ends with no blank, has matched brackets and no separator outside them, and is
code again at its end. It may have comments and literals in it, and brackets and separators in those. Joined
with the separator, with any blanks around the pieces and any number of blank places among them, pieces are
found again one by one: each search starts behind a separator, in code and outside all brackets, and passes
the place up to the next separator, so that what it cuts off is the place and nothing of it is left.
-/

namespace ClassFlattening

namespace Text

/-- Elements with the separator between them. -/
def joined (elements : List Text) : Text := [','].intercalate elements

/-- A text that can stand in a list. -/
structure IsPiece (t : Text) : Prop where
  ne_nil : t ≠ []
  starts : t.head?.any isBlank = false
  stops : t.getLast?.any isBlank = false
  /-- At its end no literal and no line without code is open. -/
  closed : Mode.code.past t = .code
  /-- The brackets in its code are matched, and no separator stands in its code outside them. -/
  nested : passAll (nestingVerdict (· == ',')) [] t.code = some []

instance (t : Text) : Decidable t.IsPiece :=
  decidable_of_iff
    (t ≠ [] ∧ t.head?.any isBlank = false ∧ t.getLast?.any isBlank = false ∧ Mode.code.past t = .code ∧
      passAll (nestingVerdict (· == ',')) [] t.code = some [])
    ⟨fun ⟨hne, hstarts, hstops, hclosed, hnested⟩ => ⟨hne, hstarts, hstops, hclosed, hnested⟩,
      fun h => ⟨h.ne_nil, h.starts, h.stops, h.closed, h.nested⟩⟩

namespace IsPiece

variable {t : Text}

/-- Trimming leaves a piece as it is. -/
theorem trim (h : t.IsPiece) : t.trim = t :=
  trim_eq_self ((Option.any_eq_false _ _).1 h.starts) ((Option.any_eq_false _ _).1 h.stops)

/-- The search for the next separator is behind a piece as it was in front of it. -/
theorem passable (h : t.IsPiece) : t.Passable (· == ',') := by
  have hcount : passAll (topLevelVerdict (· == ',')) 0 t.code = some 0 :=
    passAll_map List.length (fun _ _ _ => topLevelVerdict_of_nestingVerdict) h.nested
  rw [Passable, walk_of_passAll hcount, h.closed]

end IsPiece

/-- A place between the separators of a list: a piece or nothing, with blanks around it. -/
structure Slot where
  front : Text
  held : Option Text
  back : Text
  blank_front : front.allBlank = true
  blank_back : back.allBlank = true

namespace Slot

variable {slot : Slot} {slots : List Slot}

/-- What is in a place besides the blanks. -/
def content (slot : Slot) : Text := slot.held.getD []

/-- The text of a place. -/
def text (slot : Slot) : Text := slot.front ++ slot.content ++ slot.back

/-- The search for the next separator passes a place. -/
theorem passable_text (h : ∀ piece ∈ slot.held, piece.IsPiece) : slot.text.Passable (· == ',') := by
  have hfront := (balanced_of_allBlank slot.blank_front ne_comma_of_isBlank).passable
  have hback := (balanced_of_allBlank slot.blank_back ne_comma_of_isBlank).passable
  have hcontent : slot.content.Passable (· == ',') := by
    rw [content]
    cases hheld : slot.held with
    | none => rfl
    | some piece => exact (h piece hheld).passable
  rw [text, List.append_assoc, hfront.append_iff (apart_of_allBlank_left slot.blank_front),
    hcontent.append_iff (apart_of_allBlank_right slot.blank_back)]
  exact hback

/-- Trimming leaves of a place what is in it besides the blanks. -/
theorem trim_text (h : ∀ piece ∈ slot.held, piece.IsPiece) : slot.text.trim = slot.content := by
  have hcontent : slot.content.trim = slot.content := by
    rw [content]
    cases hheld : slot.held with
    | none => rfl
    | some piece => exact (h piece hheld).trim
  exact trim_around slot.blank_front hcontent slot.blank_back

/-- What is in the places, the blank ones apart, are the pieces. -/
theorem filter_content (h : ∀ slot ∈ slots, ∀ piece ∈ slot.held, piece.IsPiece) :
    ((slots.map content).filter fun piece => !piece.isEmpty) = slots.filterMap held := by
  induction slots with
  | nil => rfl
  | cons slot slots ih =>
    have hslots := ih fun other hother => h other (List.mem_cons_of_mem slot hother)
    rw [List.map_cons, content]
    cases hheld : slot.held with
    | none =>
      rw [List.filterMap_cons_none hheld, ← hslots]
      rfl
    | some piece =>
      have hne := (h slot List.mem_cons_self piece hheld).ne_nil
      rw [List.filterMap_cons_some hheld, ← hslots, Option.getD_some, List.filter_cons_of_pos (by simp [hne])]

end Slot

/-- Elements that the search for a separator passes are, trimmed, the pieces of the list that they are joined
to. -/
theorem topLevelPieces_joined {elements : List Text} (hne : elements ≠ [])
    (h : ∀ e ∈ elements, e.Passable (· == ',')) : (joined elements).topLevelPieces ',' = elements.map trim := by
  induction elements with
  | nil => exact absurd rfl hne
  | cons e elements ih =>
    have he := h e List.mem_cons_self
    cases elements with
    | nil =>
      rw [joined, List.intercalate_singleton, topLevelPieces_eq, (passable_iff.1 he).2]
      rfl
    | cons next elements =>
      have hjoined : joined (e :: next :: elements) = e ++ ',' :: joined (next :: elements) := by
        rw [joined, List.intercalate_cons_cons, List.append_assoc, List.singleton_append, joined]
      rw [hjoined, topLevelPieces_of_passable he,
        ih (List.cons_ne_nil _ _) fun d hd => h d (List.mem_cons_of_mem e hd)]
      rfl

/-- Taking a joined list apart gives its pieces, in order: the blanks around them and the blank places among
them are dropped, and the brackets, separators and quotes within a piece are part of it. -/
theorem splitTopLevel_joined {pieces : List Text} {slots : List Slot}
    (hpieces : ∀ piece ∈ pieces, piece.IsPiece) (hslots : slots.filterMap Slot.held = pieces) :
    (joined (slots.map Slot.text)).splitTopLevel ',' = pieces := by
  have hheld : ∀ slot ∈ slots, ∀ piece ∈ slot.held, piece.IsPiece := by
    intro slot hslot piece hpiece
    apply hpieces
    rw [← hslots, List.mem_filterMap]
    exact ⟨slot, hslot, hpiece⟩
  rw [splitTopLevel, ← hslots]
  cases slots with
  | nil =>
    rw [List.map_nil, joined, List.intercalate_nil, topLevelPieces_eq]
    rfl
  | cons slot rest =>
    have hpass : ∀ e ∈ (slot :: rest).map Slot.text, e.Passable (· == ',') := by
      intro e he
      obtain ⟨place, hplace, rfl⟩ := List.mem_map.1 he
      exact Slot.passable_text (hheld place hplace)
    have htrim : ((slot :: rest).map Slot.text).map trim = (slot :: rest).map Slot.content := by
      rw [List.map_map]
      exact List.map_congr_left fun place hplace => Slot.trim_text (hheld place hplace)
    rw [topLevelPieces_joined (by simp) hpass, htrim, Slot.filter_content hheld]

/-- Calls, literals, a comment and a line of a multiline literal, with blank places in front, between and
behind. -/
theorem splitTopLevel_joined_mixed :
    (joined (List.map Slot.text
      [⟨[' '], none, [], rfl, rfl⟩,
        ⟨['\n', '\t'], some "f(a, [b, \x7bc, d\x7d])".toList, [], rfl, rfl⟩,
        ⟨[], some "\"\x7d,\\\", (\"".toList, ['\u3000'], rfl, rfl⟩,
        ⟨[], none, [], rfl, rfl⟩,
        ⟨[' '], some "x // ), (\n = ','".toList, ['\n'], rfl, rfl⟩,
        ⟨[], some "\\\\ \x7b , \"\n.e".toList, [' '], rfl, rfl⟩,
        ⟨[], none, ['\n'], rfl, rfl⟩])).splitTopLevel ',' =
      ["f(a, [b, \x7bc, d\x7d])".toList, "\"\x7d,\\\", (\"".toList, "x // ), (\n = ','".toList,
        "\\\\ \x7b , \"\n.e".toList] := by
  refine splitTopLevel_joined ?_ rfl
  rw [List.forall_mem_cons, List.forall_mem_cons, List.forall_mem_cons, List.forall_mem_singleton]
  exact ⟨by decide, by decide, by decide, by decide⟩

end Text

end ClassFlattening
