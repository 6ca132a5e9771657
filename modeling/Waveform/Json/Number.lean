import Waveform.Binary64.Decimal
import Waveform.Json

/-!
# Written Numbers

The grammar of JSON numbers: an optional minus sign, digits without a leading zero, an
optional fraction, and an optional exponent. A number without fraction and exponent is an
integer if it fits into 64 bits, signed or unsigned, except that minus zero is a real,
since no integer has that sign. Every other number is a real. Of its digits the leading
ones count, as many as fit into 64 bits, and the others only for the place of the point.
-/

namespace Waveform.Json.Number

/-- The number that some decimal digits denote. -/
def ofDigits (digits : List Char) : Nat :=
  digits.foldl (fun n c => 10 * n + (c.toNat - '0'.toNat)) 0

/-- The longest part of some digits, from the front, whose number is below `2 ^ 64`: the number,
and how many digits that are. `count` digits have been read already, with the number `n`. -/
def leadingFrom (n count : Nat) : List Char → Nat × Nat
  | [] => (n, count)
  | c :: cs =>
    let n' := 10 * n + (c.toNat - '0'.toNat)
    if UInt64.size ≤ n' then (n, count) else leadingFrom n' (count + 1) cs

/-- The `Json.real` with the given digits before and after the point, and the given exponent. -/
def real? (negative : Bool) (whole part : List Char) (exponent : Int) : Option Json :=
  let (n, count) := leadingFrom 0 0 (whole ++ part)
  (Binary64.ofDecimal? negative n (exponent + whole.length - count)).map .real

/-- The number with the given digits and neither fraction nor exponent: a `Json.int` if it fits
into 64 bits and is not minus zero. -/
def integer? (negative : Bool) (whole : List Char) : Option Json :=
  let n := ofDigits whole
  if negative ∧ 0 < n ∧ Int64.minValue.toInt ≤ -(n : Int) then some (.int (-n))
  else if ¬ negative ∧ n < UInt64.size then some (.int n)
  else real? negative whole [] 0

/-- The digits at the front of a text, and what follows them. -/
def spanDigits (text : List Char) : List Char × List Char :=
  (text.takeWhile Char.isDigit, text.dropWhile Char.isDigit)

/-- Digits that may stand before the point: at least one, and no leading zero. -/
def isWhole : List Char → Bool
  | [] => false
  | ['0'] => true
  | c :: _ => c ≠ '0'

/-- Reads a sign, where a missing one is a plus. The answer is `true` for a minus. -/
def sign : List Char → Bool × List Char
  | '-' :: text => (true, text)
  | '+' :: text => (false, text)
  | text => (false, text)

/-- Reads the fraction that may follow: its digits, or `none` in their place if there is no
point. -/
def fraction? : List Char → Option (Option (List Char) × List Char)
  | '.' :: text =>
    match spanDigits text with
    | ([], _) => none
    | (digits, rest) => some (some digits, rest)
  | text => some (none, text)

/-- Reads the exponent that may end the number. -/
def exponent? : List Char → Option (Option Int)
  | [] => some none
  | c :: text =>
    if c = 'e' ∨ c = 'E' then
      let (negative, text) := sign text
      match spanDigits text with
      | ([], _) => none
      | (digits, []) =>
        let n : Int := ofDigits digits
        some (some (if negative then -n else n))
      | _ => none
    else none

/-- Reads a number without its minus sign: the digits of `isWhole`, then `fraction?`, then
`exponent?`. -/
def unsigned? (negative : Bool) (text : List Char) : Option Json :=
  let (whole, rest) := spanDigits text
  if isWhole whole then
    match fraction? rest with
    | none => none
    | some (part?, rest) =>
      match part?, exponent? rest with
      | _, none => none
      | none, some none => integer? negative whole
      | part?, some exponent? => real? negative whole (part?.getD []) (exponent?.getD 0)
  else none

/-- Reads a **number**: `unsigned?`, with or without a minus in front. -/
def parse? : List Char → Option Json
  | '-' :: text => unsigned? true text
  | text => unsigned? false text

end Waveform.Json.Number
