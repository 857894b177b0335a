import ClassFlattening.Text.Basic

/-!
# The front of a text

A scan leaves a front behind it: the part of its text that it has passed. The front keeps its
characters last first, so that it is extended and looked back into without being walked through, and
it keeps its size. `Front.text` is the view; `text_push` and `popWhile_whole` say what extending a
front and looking back into it do to the view.
-/

namespace ClassFlattening

/-- The part of a text in front of a place. -/
structure Front where
  /-- The characters, last first. -/
  passed : Text
  /-- The offset of the place. -/
  size : Nat
  size_eq : size = passed.size
deriving DecidableEq, Repr

namespace Front

/-- The front of the start of a text, where nothing is passed. -/
def empty : Front := ⟨[], 0, rfl⟩

/-- The characters of a front, in order. -/
def text (front : Front) : Text := front.passed.reverse

/-- The offset of a place is the size of the text in front of it. -/
theorem size_eq_size_text (front : Front) : front.size = front.text.size := by
  rw [text, Text.size_reverse]
  exact front.size_eq

/-- The front that ends one text further on. -/
def push (front : Front) (t : Text) : Front where
  passed := t.reverseAux front.passed
  size := front.size + t.size
  size_eq := by rw [List.reverseAux_eq, Text.size_append, Text.size_reverse, ← front.size_eq,
    Nat.add_comm]

@[simp] theorem text_push (front : Front) (t : Text) : (front.push t).text = front.text ++ t := by
  simp [text, push, List.reverseAux_eq]

@[simp] theorem size_push (front : Front) (t : Text) : (front.push t).size = front.size + t.size :=
  rfl

/-- The front that ends behind a text. -/
def ofText (t : Text) : Front := empty.push t

@[simp] theorem text_ofText (t : Text) : (ofText t).text = t := text_push empty t

/-- The front without the characters with the property at its end, and those characters. -/
def popWhile (front : Front) (p : Char → Bool) : Front × Text :=
  let tail : Text := front.passed.takeWhile p
  let left : Front :=
    { passed := front.passed.dropWhile p
      size := front.size - tail.size
      size_eq := by
        have hsize := congrArg Text.size
          (List.takeWhile_append_dropWhile (p := p) (l := front.passed))
        rw [Text.size_append] at hsize
        rw [front.size_eq, ← hsize]
        exact Nat.add_sub_cancel_left _ _ }
  (left, tail.reverse)

/-- Looking back loses nothing. -/
theorem popWhile_whole (front : Front) (p : Char → Bool) :
    (front.popWhile p).1.text ++ (front.popWhile p).2 = front.text := by
  rw [text, popWhile, ← List.reverse_append, List.takeWhile_append_dropWhile, text]

end Front

end ClassFlattening
