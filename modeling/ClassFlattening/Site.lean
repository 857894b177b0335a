import ClassFlattening.Bracket
import ClassFlattening.Text.Front

/-!
# Declaration sites

A declaration is a statement that calls the class marker with a struct body. A site is such a
statement taken apart: the pieces in order make up the source again, and all offsets are sums over
their sizes. The body is delimited by matching braces, the statement starts behind the last
delimiter in front of the marker and ends with the first `);` behind the body.
-/

namespace ClassFlattening

/-- The call that introduces a class declaration. -/
def marker : Text := "zoop.class(".toList

/-- What ends a declaration. -/
def terminator : Text := ");".toList

/-- A declaration and its surroundings: the source in front, the statement up to the marker, from
the marker to the body's brace, the body between its braces, from the closing brace through the
terminator, and the source behind. -/
structure Site where
  lead : Front
  header : Text
  opening : Text
  body : Text
  closing : Text
  rest : Text
deriving DecidableEq, Repr

/-- Whether a statement ends with the character. -/
def isDelimiter (c : Char) : Bool := c == ';' || c == '}' || c == '\n'

/-- Whether a character indents a statement. -/
def isIndent (c : Char) : Bool := c == ' ' || c == '\t'

/-- The front of the statement that a front ends with, and the statement so far. It starts behind
the last delimiter and the spaces and tabs that follow it. -/
def Front.popStatement (front : Front) : Front × Text :=
  let (lead, line) := front.popWhile fun c => !isDelimiter c
  (lead.push (line.takeWhile isIndent), line.dropWhile isIndent)

/-- Taking a statement off a front loses nothing. -/
theorem Front.popStatement_whole (front : Front) :
    front.popStatement.1.text ++ front.popStatement.2 = front.text := by
  rw [popStatement, text_push, List.append_assoc, List.takeWhile_append_dropWhile, popWhile_whole]

namespace Site

/-- The offset of the statement. -/
def start (site : Site) : Nat := site.lead.size

/-- The offset of the marker. -/
def markerOffset (site : Site) : Nat := site.start + site.header.size

/-- The offset of the brace that opens the body. -/
def bodyOpen (site : Site) : Nat := site.markerOffset + site.opening.size

/-- The offset of the brace that closes the body. -/
def bodyClose (site : Site) : Nat := site.bodyOpen + 1 + site.body.size

/-- The offset behind the terminator. -/
def stop (site : Site) : Nat := site.bodyClose + site.closing.size

/-- The statement. -/
def statement (site : Site) : Text :=
  site.header ++ site.opening ++ '{' :: site.body ++ site.closing

/-- The source in front of the end of the statement. -/
def through (site : Site) : Front := site.lead.push site.statement

/-- Takes a declaration apart: the source in front of the call, the call and the text behind it. -/
def read? (front : Front) (call after : Text) : Option Site := do
  let opened ← after.cutAtFirst? (· == '{')
  let closed ← opened.after.cutAtMatching? '{' '}'
  let ended ← closed.behind.cutAtText? terminator
  let (lead, header) := front.popStatement
  return {
    lead
    header
    opening := call ++ opened.before
    body := closed.before.tail
    closing := closed.after.take 1 ++ ended.before ++ terminator
    rest := ended.after.drop terminator.length }

/-- Whether a text has what a declaration needs behind its call: a brace and a terminator. -/
def mayFollow (t : Text) : Bool := t.any (· == '{') && t.contains terminator

/-- Cuts in front of the first marker at or behind an offset. -/
def cutAtMarker? (source : Text) (offset : Nat) : Option Cut := do
  let cut ← source.cutAt? offset
  let found ← cut.after.cutAtText? marker
  return ⟨cut.before ++ found.before, found.after⟩

/-- The first declaration at or behind an offset. -/
def next? (source : Text) (offset : Nat) : Option Site := do
  let cut ← cutAtMarker? source offset
  read? (.ofText cut.before) marker (cut.after.drop marker.length)

/-- What a declaration needs is not lost in front of other text. -/
theorem mayFollow_append {t : Text} (h : mayFollow t = true) (front : Text) :
    mayFollow (front ++ t) = true := by
  simp only [mayFollow, Bool.and_eq_true, List.any_append, Bool.or_eq_true] at h ⊢
  exact ⟨Or.inr h.1, Text.contains_append h.2 front⟩

/-- A site is read only where there is what it needs. -/
theorem mayFollow_of_read? {front : Front} {call after : Text} {site : Site}
    (h : read? front call after = some site) : mayFollow after = true := by
  simp only [read?, Option.bind_eq_bind, Option.bind_eq_some_iff] at h
  obtain ⟨opened, hopened, closed, hclosed, ended, hended, -⟩ := h
  rw [mayFollow, Bool.and_eq_true]
  constructor
  · rw [← Text.isSome_cutAtFirst?, hopened]
    rfl
  · rw [← Text.whole_of_cutWhere _ hopened, Cut.whole, ← Text.whole_of_cutAtMatching? hclosed,
      ← closed.through_append_behind]
    refine Text.contains_append (Text.contains_append ?_ _) _
    rw [Text.contains, hended]
    rfl

/-- The source behind a site is shorter than the text behind its call. -/
theorem length_rest_lt {front : Front} {call after : Text} {site : Site}
    (h : read? front call after = some site) : site.rest.length < after.length := by
  simp only [read?, Option.bind_eq_bind, Option.bind_eq_some_iff] at h
  obtain ⟨opened, hopened, closed, hclosed, ended, hended, h⟩ := h
  cases h
  have h₁ := Text.length_after_le (Text.whole_of_cutWhere _ hopened)
  have h₂ := Text.length_behind_lt_of_cutAtMatching? hclosed
  have h₃ := Text.length_after_le (Text.whole_of_cutWhere _ hended)
  simp only [List.length_drop]
  omega

end Site

end ClassFlattening
