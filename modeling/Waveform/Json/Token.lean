import Waveform.Json.Number

/-!
# JSON Tokens

A JSON text is cut into tokens by a machine that takes one character at a time. Its
`Mode` says what the characters before have left open: nothing, a word, or a string
together with the escape sequence that it may be in. A word is a number, `true`, `false`
or `null`, and it ends at the first character that cannot belong to one.

Escaped characters beyond the basic plane are written as two numbers, a high surrogate
and a low one. One of them without the other denotes no character.
-/

namespace Waveform.Json

/-- The least unit of a JSON text. -/
inductive Token where
  | openObject
  | closeObject
  | openArray
  | closeArray
  | colon
  | comma
  /-- A string, a number, a truth value or null. -/
  | value (value : Json)

namespace Token

/-- What is still open between two characters of `scan?`. -/
inductive Mode where
  /-- Between tokens. -/
  | between
  /-- In a word, with its characters so far, the last one first. -/
  | word (letters : List Char)
  /-- In a string. -/
  | string (text : String)
  /-- In a string, after a backslash. -/
  | escape (text : String)
  /-- In a string, within the hexadecimal number of a character. If a high surrogate came
  before, this one has to be low. -/
  | number (text : String) (high? : Option Nat) (digits n : Nat)
  /-- In a string, after a high surrogate. -/
  | afterHigh (text : String) (high : Nat)
  /-- In a string, after a high surrogate and a backslash. -/
  | escapeAfterHigh (text : String) (high : Nat)

/-- The tokens found so far, the last one first, and the `Mode`. -/
structure State where
  tokens : List Token := []
  mode : Mode := .between

/-- Characters that separate tokens. -/
def isBlank (c : Char) : Bool := c = ' ' || c = '\t' || c = '\n' || c = '\r'

/-- Characters that may belong to a word. -/
def isWordChar (c : Char) : Bool := c.isAlphanum || c = '+' || c = '-' || c = '.'

/-- The token of a complete word: a truth value, null or what `Number.parse?` reads. -/
def ofWord? (letters : List Char) : Option Token :=
  match String.ofList letters with
  | "null" => some (.value .null)
  | "true" => some (.value (.bool true))
  | "false" => some (.value (.bool false))
  | _ => (Number.parse? letters).map .value

/-- The character that a letter after a backslash stands for; `u` is not among them. -/
def escaped? : Char → Option Char
  | '"' => some '"'
  | '\\' => some '\\'
  | '/' => some '/'
  | 'b' => some '\x08'
  | 'f' => some '\x0c'
  | 'n' => some '\n'
  | 'r' => some '\r'
  | 't' => some '\t'
  | _ => none

/-- The value of a hexadecimal digit. -/
def hexDigit? (c : Char) : Option Nat :=
  if c.isDigit then some (c.toNat - '0'.toNat)
  else if 'a' ≤ c ∧ c ≤ 'f' then some (c.toNat - 'a'.toNat + 10)
  else if 'A' ≤ c ∧ c ≤ 'F' then some (c.toNat - 'A'.toNat + 10)
  else none

/-- The first half of a character beyond the basic plane. -/
def isHighSurrogate (n : Nat) : Bool := 0xd800 ≤ n && n < 0xdc00

/-- The second half of a character beyond the basic plane. -/
def isLowSurrogate (n : Nat) : Bool := 0xdc00 ≤ n && n < 0xe000

/-- The character of two halves, of which `isHighSurrogate` and `isLowSurrogate` hold. -/
def combine (high low : Nat) : Char :=
  Char.ofNat (0x10000 + (high - 0xd800) * 0x400 + (low - 0xdc00))

/-- Goes on after a complete hexadecimal number `n`. -/
def afterNumber? (text : String) (high? : Option Nat) (n : Nat) : Option Mode :=
  match high? with
  | some high => if isLowSurrogate n then some (.string (text.push (combine high n))) else none
  | none =>
    if isHighSurrogate n then some (.afterHigh text n)
    else if isLowSurrogate n then none
    else some (.string (text.push (Char.ofNat n)))

/-- Takes a character in the mode `between`. -/
def start? (tokens : List Token) (c : Char) : Option State :=
  if isBlank c then some { tokens := tokens }
  else
    match c with
    | '\x7b' => some { tokens := .openObject :: tokens }
    | '\x7d' => some { tokens := .closeObject :: tokens }
    | '[' => some { tokens := .openArray :: tokens }
    | ']' => some { tokens := .closeArray :: tokens }
    | ':' => some { tokens := .colon :: tokens }
    | ',' => some { tokens := .comma :: tokens }
    | '"' => some { tokens := tokens, mode := .string "" }
    | c => if isWordChar c then some { tokens := tokens, mode := .word [c] } else none

/-- Takes a character in the mode `string`. -/
def inString? (tokens : List Token) (text : String) (c : Char) : Option State :=
  if c = '"' then some { tokens := .value (.str text) :: tokens }
  else if c = '\\' then some { tokens := tokens, mode := .escape text }
  else if c < ' ' then none
  else some { tokens := tokens, mode := .string (text.push c) }

/-- Takes the **next character**, by the `Mode` of the state. -/
def step? (s : State) (c : Char) : Option State :=
  match s.mode with
  | .between => start? s.tokens c
  | .word letters =>
    if isWordChar c then some { s with mode := .word (c :: letters) }
    else
      match ofWord? letters.reverse with
      | none => none
      | some token => start? (token :: s.tokens) c
  | .string text => inString? s.tokens text c
  | .escape text =>
    if c = 'u' then some { s with mode := .number text none 0 0 }
    else (escaped? c).map fun e => { s with mode := .string (text.push e) }
  | .number text high? digits n =>
    match hexDigit? c with
    | none => none
    | some d =>
      let n := 16 * n + d
      if digits = 3 then (afterNumber? text high? n).map fun mode => { s with mode := mode }
      else some { s with mode := .number text high? (digits + 1) n }
  | .afterHigh text high =>
    if c = '\\' then some { s with mode := .escapeAfterHigh text high } else none
  | .escapeAfterHigh text high =>
    if c = 'u' then some { s with mode := .number text (some high) 0 0 } else none

/-- The tokens at the end of the text, if nothing is left open: the mode is `between`, or `word`
with a complete word. -/
def finish? (s : State) : Option (List Token) :=
  match s.mode with
  | .between => some s.tokens.reverse
  | .word letters => (ofWord? letters.reverse).map fun token => (token :: s.tokens).reverse
  | _ => none

/-- Cuts a text into its **tokens**: `step?` for each of its characters, then `finish?`. -/
def scan? (text : String) : Option (List Token) :=
  (text.toList.foldlM step? {}).bind finish?

end Token

end Waveform.Json
