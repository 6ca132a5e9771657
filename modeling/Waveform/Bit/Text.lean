import Waveform.Bit
import Waveform.Text.CharLiteral

/-!
# Bit Strings

A list of bits is written as one character per bit, with the most significant bit first.
`Bit.render` writes that text in lower case, and `Bit.parse` reads it in either case or
reports the first character that is no bit.
-/

namespace Waveform

/-- Why raw data does not denote a `Bit`. -/
inductive BitError where
  /-- The tag is larger than that of the last state in `Bit.all`. -/
  | unknownTag
  /-- The character is no written state. -/
  | unknownChar (c : Char)
  deriving DecidableEq

/-- The error in words. -/
def BitError.message : BitError → String
  | unknownTag => "invalid bit state tag"
  | unknownChar c => "invalid bit state character: " ++ Text.charLiteral c

namespace Bit

/-- Reads a tag by `Bit.ofTag?`, or says that it is none. -/
def readTag (tag : Nat) : Except BitError Bit :=
  match ofTag? tag with
  | some b => .ok b
  | none => .error .unknownTag

/-- Reads one character by `Bit.ofChar?`, or says which character is no bit. -/
def readChar (c : Char) : Except BitError Bit :=
  match ofChar? c with
  | some b => .ok b
  | none => .error (.unknownChar c)

/-- Reads one bit per character, and stops at the first character that is none. -/
def readChars : List Char → Except BitError (List Bit)
  | [] => .ok []
  | c :: cs =>
    match readChar c with
    | .error e => .error e
    | .ok b =>
      match readChars cs with
      | .error e => .error e
      | .ok bs => .ok (b :: bs)

/-- Reads a **bit string**, most significant bit first. `Bit.parse_render` says that it undoes
`Bit.render`. -/
def parse (text : String) : Except BitError (List Bit) := readChars text.toList

/-- Writes the `Bit.char` of every bit, most significant bit first. -/
def render (bits : List Bit) : String := String.ofList (bits.map char)

theorem readChars_map_char (bits : List Bit) : readChars (bits.map char) = .ok bits := by
  induction bits with
  | nil => rfl
  | cons b bs ih => simp [readChars, readChar, ofChar?_char, ih]

/-- Reading inverts writing: `Bit.parse` gives back what `Bit.render` was given. -/
theorem parse_render (bits : List Bit) : parse (render bits) = .ok bits := by
  simp [parse, render, readChars_map_char]

end Bit

end Waveform
