import ClassFlattening.Text.Basic

/-!
# JSON

A reader for JSON texts. Objects keep their entries in order, repeated keys included. A string may
spell half of a surrogate pair, which stands for no character; such a string has no text, and so it
is harmless where nobody asks for it.
-/

namespace ClassFlattening

/-- A JSON value. The value of a number is not kept. -/
inductive Json where
  | null
  | bool (value : Bool)
  | number
  /-- A string, with its text if it has one. -/
  | string (text : Option Text)
  | array (items : List Json)
  | object (entries : List (Option Text × Json))
deriving Inhabited

namespace Json

/-- Whether a character may stand between tokens. -/
def isSpace (c : Char) : Bool := c == ' ' || c == '\t' || c == '\n' || c == '\r'

/-- A text without spaces in front. -/
def dropSpace (t : Text) : Text := t.dropWhile isSpace

/-- The value of a hexadecimal digit. -/
def hexDigit? (c : Char) : Option Nat :=
  if '0' ≤ c ∧ c ≤ '9' then some (c.toNat - '0'.toNat)
  else if 'a' ≤ c ∧ c ≤ 'f' then some (c.toNat - 'a'.toNat + 10)
  else if 'A' ≤ c ∧ c ≤ 'F' then some (c.toNat - 'A'.toNat + 10)
  else none

/-- The code unit of four hexadecimal digits. -/
def codeUnit? (a b c d : Char) : Option Nat := do
  return (((← hexDigit? a) * 16 + (← hexDigit? b)) * 16 + (← hexDigit? c)) * 16 + (← hexDigit? d)

/-- What a character stands for behind a backslash. -/
def escape? (c : Char) : Option Char :=
  if c = '"' ∨ c = '\\' ∨ c = '/' then some c
  else if c = 'b' then some '\x08'
  else if c = 'f' then some '\x0c'
  else if c = 'n' then some '\n'
  else if c = 'r' then some '\r'
  else if c = 't' then some '\t'
  else none

/-- Whether a code unit is the first half of a pair. -/
def isHighHalf (unit : Nat) : Bool := 0xD800 ≤ unit && unit < 0xDC00

/-- Whether a code unit is the second half of a pair. -/
def isLowHalf (unit : Nat) : Bool := 0xDC00 ≤ unit && unit < 0xE000

/-- One more code unit behind a text and perhaps the first half of a pair. The text comes last
character first and is lost at a half that finds no other. -/
def pushUnit (text : Option Text) (half : Option Nat) (unit : Nat) : Option Text × Option Nat :=
  match half with
  | some high =>
    if isLowHalf unit then
      (text.map (Char.ofNat (0x10000 + (high - 0xD800) * 0x400 + (unit - 0xDC00)) :: ·), none)
    else (none, if isHighHalf unit then some unit else none)
  | none =>
    if isHighHalf unit then (text, some unit)
    else if isLowHalf unit then (none, none)
    else (text.map (Char.ofNat unit :: ·), none)

/-- One more character behind a text and perhaps the first half of a pair. -/
def pushChar (text : Option Text) (half : Option Nat) (c : Char) : Option Text :=
  if half.isSome then none else text.map (c :: ·)

/-- Reads a string behind its opening quote, after what was read of it. -/
def readString : Option Text → Option Nat → Text → Option (Option Text × Text)
  | text, half, '"' :: rest => some (if half.isSome then none else text.map List.reverse, rest)
  | text, half, '\\' :: 'u' :: a :: b :: c :: d :: rest => do
    let unit ← codeUnit? a b c d
    let (text, half) := pushUnit text half unit
    readString text half rest
  | text, half, '\\' :: c :: rest => do
    let plain ← escape? c
    readString (pushChar text half plain) none rest
  | text, half, c :: rest =>
    if c.toNat < 32 then none else readString (pushChar text half c) none rest
  | _, _, [] => none

/-- The text behind at least one digit. -/
def dropDigits? (t : Text) : Option Text :=
  if t.head?.any Char.isDigit then some (t.dropWhile Char.isDigit) else none

/-- The text behind the whole part of a number, which starts with a zero only if it is zero. -/
def dropWhole? : Text → Option Text
  | '0' :: rest => if rest.head?.any Char.isDigit then none else some rest
  | t => dropDigits? t

/-- The text behind the fraction of a number, if there is one. -/
def dropFraction? : Text → Option Text
  | '.' :: rest => dropDigits? rest
  | t => some t

/-- The text behind the exponent of a number, if there is one. -/
def dropExponent? : Text → Option Text
  | c :: rest =>
    if c = 'e' ∨ c = 'E' then
      match rest with
      | '+' :: digits => dropDigits? digits
      | '-' :: digits => dropDigits? digits
      | _ => dropDigits? rest
    else some (c :: rest)
  | [] => some []

/-- The text behind a number. -/
def dropNumber? (t : Text) : Option Text := do
  let whole ← dropWhole? (if t.head? = some '-' then t.tail else t)
  let fraction ← dropFraction? whole
  dropExponent? fraction

mutual

/-- Reads a value and returns it with the text behind it. The fuel bounds the calls. -/
def readValue : Nat → Text → Option (Json × Text)
  | 0, _ => none
  | fuel + 1, t =>
    match dropSpace t with
    | '"' :: rest => (readString (some []) none rest).map fun (text, rest) => (.string text, rest)
    | '[' :: rest =>
      match dropSpace rest with
      | ']' :: rest => some (.array [], rest)
      | rest => (readItems fuel rest).map fun (items, rest) => (.array items, rest)
    | '{' :: rest =>
      match dropSpace rest with
      | '}' :: rest => some (.object [], rest)
      | rest => (readEntries fuel rest).map fun (entries, rest) => (.object entries, rest)
    | 'n' :: 'u' :: 'l' :: 'l' :: rest => some (.null, rest)
    | 't' :: 'r' :: 'u' :: 'e' :: rest => some (.bool true, rest)
    | 'f' :: 'a' :: 'l' :: 's' :: 'e' :: rest => some (.bool false, rest)
    | rest => (dropNumber? rest).map fun rest => (.number, rest)

/-- Reads the items of an array through its closing bracket. -/
def readItems : Nat → Text → Option (List Json × Text)
  | 0, _ => none
  | fuel + 1, t => do
    let (item, rest) ← readValue fuel t
    match dropSpace rest with
    | ']' :: rest => some ([item], rest)
    | ',' :: rest =>
      let (items, rest) ← readItems fuel rest
      some (item :: items, rest)
    | _ => none

/-- Reads the entries of an object through its closing brace. -/
def readEntries : Nat → Text → Option (List (Option Text × Json) × Text)
  | 0, _ => none
  | fuel + 1, t => do
    match dropSpace t with
    | '"' :: rest =>
      let (key, rest) ← readString (some []) none rest
      match dropSpace rest with
      | ':' :: rest =>
        let (value, rest) ← readValue fuel rest
        match dropSpace rest with
        | '}' :: rest => some ([(key, value)], rest)
        | ',' :: rest =>
          let (entries, rest) ← readEntries fuel rest
          some ((key, value) :: entries, rest)
        | _ => none
      | _ => none
    | _ => none

end

/-- Reads a text that is one value. -/
def read? (t : Text) : Option Json := do
  let (value, rest) ← readValue (2 * t.length + 2) t
  if (dropSpace rest).isEmpty then some value else none

end Json

end ClassFlattening
