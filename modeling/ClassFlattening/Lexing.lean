import ClassFlattening.Text.Basic

/-!
# Code and what is not code

Inside literals and comments a bracket or a separator means nothing. A text is read one character at
a time in one of four modes: code, a literal behind its opening quote, the character behind a
backslash in a literal, and a line that is no code up to its end. A literal ends behind its closing
quote; if the line ends first, the newline is code again. Which two characters make the rest of a
line no code is a parameter: a pair of slashes starts a comment, and a pair of backslashes a line of
a multiline literal. `cutInCode` searches the code and passes everything else.
-/

namespace ClassFlattening

/-- How the next character is to be read. -/
inductive Mode where
  | code
  | quoted (quote : Char)
  | escaped (quote : Char)
  | line
deriving DecidableEq, Repr

/-- Whether a character opens a literal. -/
@[inline] def isQuote (c : Char) : Bool := c == '"' || c == '\''

/-- Whether the character is followed by itself. -/
@[inline] def isDoubled (c : Char) (rest : Text) : Bool := rest.head? == some c

namespace Mode

/-- Reads one character: whether it is code, and the mode behind it. Outside literals a character
that satisfies `lineStart` and stands twice makes the rest of the line no code. -/
@[inline] def read (lineStart : Char → Bool) : Mode → Char → Text → Bool × Mode
  | code, c, rest =>
    if isQuote c then (false, quoted c)
    else if lineStart c && isDoubled c rest then (false, line)
    else (true, code)
  | mode@(quoted quote), c, _ =>
    if c = '\\' then (false, escaped quote)
    else if c = '\n' then (true, code)
    else if c = quote then (false, code)
    else (false, mode)
  | escaped quote, _, _ => (false, quoted quote)
  | line, c, _ => if c = '\n' then (true, code) else (false, line)

end Mode

/-- Comments and the lines of multiline literals are no code. -/
@[inline] def isLineStart (c : Char) : Bool := c == '/' || c == '\\'

/-- Reads one character of a source. -/
@[inline] def Mode.step (mode : Mode) (c : Char) (rest : Text) : Bool × Mode :=
  mode.read isLineStart c rest

/-- The code of a text that is read from a mode on, in order. -/
def Mode.codeOf : Mode → Text → Text
  | _, [] => []
  | mode, c :: rest =>
    let (isCode, next) := mode.step c rest
    if isCode then c :: next.codeOf rest else next.codeOf rest

namespace Mode

@[simp] theorem step_escaped (quote c : Char) (rest : Text) :
    (escaped quote).step c rest = (false, quoted quote) := rfl

/-- Behind a newline that is not escaped the text is read as code. -/
theorem step_newline {mode : Mode} (h : ∀ quote, mode ≠ escaped quote) (rest : Text) :
    mode.step '\n' rest = (true, code) := by
  cases mode with
  | code => simp [step, read, isQuote, isLineStart]
  | quoted quote => simp [step, read]
  | escaped quote => exact absurd rfl (h quote)
  | line => simp [step, read]

end Mode

namespace Text

/-- How many characters a search of the code passes before it stops, on top of those it has passed
already. The verdict sees the code alone. -/
@[specialize] def passedInCode {σ : Type} (verdict : σ → Char → Verdict σ) (mode : Mode) (state : σ)
    (passed : Nat) : Text → Option Nat
  | [] => none
  | c :: rest =>
    let (isCode, next) := mode.step c rest
    if isCode then
      match verdict state c with
      | .stop => some passed
      | .fail => none
      | .pass state => passedInCode verdict next state (passed + 1) rest
    else passedInCode verdict next state (passed + 1) rest

/-- Cuts in front of the first character of the code at which the verdict is to stop. -/
@[inline] def cutInCode {σ : Type} (verdict : σ → Char → Verdict σ) (start : σ) (t : Text) :
    Option Cut :=
  (passedInCode verdict .code start 0 t).map fun passed => ⟨t.take passed, t.drop passed⟩

/-- A decision about the characters of the code as one about all characters. -/
def codeVerdict {σ : Type} (verdict : σ → Char → Verdict σ) (state : Mode × σ) (c : Char)
    (rest : Text) : Verdict (Mode × σ) :=
  let (isCode, next) := state.1.step c rest
  if isCode then
    match verdict state.2 c with
    | .stop => .stop
    | .fail => .fail
    | .pass after => .pass (next, after)
  else .pass (next, state.2)

section CodeVerdict

variable {σ : Type} {verdict : σ → Char → Verdict σ} {state next : Mode × σ} {c : Char} {rest : Text}

/-- A search of the code stops where its verdict on a character of the code is to stop. -/
theorem codeVerdict_eq_stop_iff :
    codeVerdict verdict state c rest = .stop ↔
      (state.1.step c rest).1 = true ∧ verdict state.2 c = .stop := by
  simp only [codeVerdict]
  cases (state.1.step c rest).1 with
  | false => simp
  | true => cases verdict state.2 c <;> simp

/-- A search of the code fails where its verdict on a character of the code is to fail. -/
theorem codeVerdict_eq_fail_iff :
    codeVerdict verdict state c rest = .fail ↔
      (state.1.step c rest).1 = true ∧ verdict state.2 c = .fail := by
  simp only [codeVerdict]
  cases (state.1.step c rest).1 with
  | false => simp
  | true => cases verdict state.2 c <;> simp

/-- A search of the code passes a character of the code where its verdict is to pass, and everything else as
it is. -/
theorem codeVerdict_eq_pass_iff :
    codeVerdict verdict state c rest = .pass next ↔
      (state.1.step c rest).2 = next.1 ∧
        ((state.1.step c rest).1 = true → verdict state.2 c = .pass next.2) ∧
        ((state.1.step c rest).1 = false → state.2 = next.2) := by
  simp only [codeVerdict]
  cases (state.1.step c rest).1 with
  | false => simp [Prod.ext_iff]
  | true => cases verdict state.2 c <;> simp [Prod.ext_iff]

end CodeVerdict

section CutInCode

variable {σ : Type} (verdict : σ → Char → Verdict σ)

theorem passedInCode_eq_passedWhere (mode : Mode) (state : σ) (passed : Nat) (t : Text) :
    passedInCode verdict mode state passed t =
      passedWhere (codeVerdict verdict) (mode, state) passed t := by
  induction t generalizing mode state passed with
  | nil => rfl
  | cons c rest ih =>
    simp only [passedInCode, passedWhere, codeVerdict]
    split
    · cases verdict state c <;> simp [ih]
    · simp [ih]

/-- A search of the code is a search that passes everything else. -/
theorem cutInCode_eq_cutWhere (start : σ) (t : Text) :
    cutInCode verdict start t = cutWhere (codeVerdict verdict) (.code, start) t := by
  rw [cutInCode, passedInCode_eq_passedWhere, cutWhere]

/-- A cut in the code loses nothing. -/
theorem whole_of_cutInCode {start : σ} {t : Text} {cut : Cut}
    (h : cutInCode verdict start t = some cut) : cut.whole = t :=
  whole_of_cutWhere _ (cutInCode_eq_cutWhere verdict start t ▸ h)

end CutInCode

/-- What follows the character at which a search of the code stopped is shorter than the text. -/
theorem length_behind_lt_of_cutInCode {σ : Type} {verdict : σ → Char → Verdict σ} {start : σ}
    {t : Text} {cut : Cut} (h : cutInCode verdict start t = some cut) :
    cut.behind.length < t.length :=
  length_behind_lt_of_cutWhere (cutInCode_eq_cutWhere verdict start t ▸ h)

end Text

end ClassFlattening
