/-!
# Pieces of Texts

Command lines, log filters and messages are lists of characters that come in pieces. They
are cut at every occurrence of a separator (`splitOn`), blanks are cut off from their ends
(`trim`), and a message that contains line feeds takes up several lines when it is printed,
which are its pieces between them (`linesOf`).

A piece may have to be an integer: an optional sign, and then one or more decimal digits,
which may start with zeros. A natural number may have a plus sign but no minus sign, not
even in front of zero. A number outside of the range that is asked for is refused
(`int64?`, `uint64?`).
-/

namespace Waveform.Text

/-- The pieces between the separators. There is always one piece more than separators. -/
def splitOn (separator : Char) : List Char → List (List Char)
  | [] => [[]]
  | c :: cs =>
    if c = separator then [] :: splitOn separator cs
    else
      match splitOn separator cs with
      | [] => [[c]]
      | piece :: pieces => (c :: piece) :: pieces

/-- A line without the carriage return that may stand at its end, for `linesOf`. -/
def dropReturn (line : List Char) : List Char :=
  if line.getLast? = some '\r' then line.dropLast else line

/-- The **lines** that a message takes up when it is printed. A line ends at a line feed, and a
carriage return right before that belongs to the end of the line (`dropReturn`). -/
def linesOf (message : String) : List String :=
  (splitOn '\n' message.toList).map fun line => String.ofList (dropReturn line)

/-- Characters with the Unicode property White_Space. -/
def isBlank (c : Char) : Bool :=
  (9 ≤ c.toNat && c.toNat ≤ 13) || (0x2000 ≤ c.toNat && c.toNat ≤ 0x200a) ||
    [0x20, 0x85, 0xa0, 0x1680, 0x2028, 0x2029, 0x202f, 0x205f, 0x3000].contains c.toNat

/-- The text without the characters at its ends for which `isBlank` holds. -/
def trim (text : List Char) : List Char :=
  ((text.dropWhile isBlank).reverse.dropWhile isBlank).reverse

/-- The text, with blanks in front of it if it is shorter than `width`. -/
def padLeft (width : Nat) (text : String) : String :=
  String.ofList (List.replicate (width - text.length) ' ') ++ text

/-- The text, with blanks behind it if it is shorter than `width`. -/
def padRight (width : Nat) (text : String) : String :=
  text ++ String.ofList (List.replicate (width - text.length) ' ')

/-! ### Integers -/

/-- Reads decimal digits, of which there must be at least one, as a `Nat`. -/
def digits? (text : List Char) : Option Nat :=
  if text.isEmpty then none
  else if text.all Char.isDigit then
    some (text.foldl (fun n c => 10 * n + (c.toNat - '0'.toNat)) 0)
  else none

/-- Reads an integer: `digits?`, with or without a sign in front. -/
def int? : List Char → Option Int
  | '-' :: text => (digits? text).map fun n => -(n : Int)
  | '+' :: text => (digits? text).map Int.ofNat
  | text => (digits? text).map Int.ofNat

/-- Reads an `int?` within the bounds of `Int64`. -/
def int64? (text : List Char) : Option Int64 :=
  match int? text with
  | none => none
  | some n =>
    if Int64.minValue.toInt ≤ n ∧ n ≤ Int64.maxValue.toInt then some (Int64.ofInt n) else none

/-- Reads an unsigned `int?` below `UInt64.size`. -/
def uint64? (text : List Char) : Option Nat :=
  match text with
  | '-' :: _ => none
  | _ =>
    match int? text with
    | none => none
    | some n => if n < UInt64.size then some n.toNat else none

end Waveform.Text
