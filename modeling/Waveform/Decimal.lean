import Waveform.Bit

/-!
# Decimal Numerals

Two kinds of number are written as decimals. The number that a bit string denotes can be
far larger than a machine word. Its numeral (`Decimal.ofBits`) is found without arithmetic
on large numbers: bit by bit from the most significant one, a list of decimal digits is
doubled and the bit is added. The digits are bytes, the least significant first. A digit is
at most nine and a carry at most one, so no step overflows a byte.

A positive number `m * 2 ^ q` of a binary format stands for a whole interval of reals,
namely those that round to it (`Rounding`). The **shortest decimal** of the number
(`Decimal.shortest`) is the decimal with the fewest digits in that interval, and of several
such the nearest to the number itself. The search goes through the decimal grids `10 ^ p`
from coarse to fine. On each grid only the two neighbours of the number matter, and all
comparisons are between natural numbers, so no step rounds. When the two neighbours are
equally near, the upper one is taken.
-/

namespace Waveform.Decimal

/-! ### Doubling -/

/-- Doubles a list of digits and adds a `carry`. What is carried out of the last digit becomes a
digit of its own. -/
def doubleAdd : List UInt8 → (carry : UInt8) → List UInt8
  | [], carry => if 0 < carry then [carry] else []
  | d :: ds, carry =>
    let doubled := d * 2 + carry
    doubled % 10 :: doubleAdd ds (doubled / 10)

/-- What a bit adds in `doubleAdd`: one for a strong one, and nothing for any other state. -/
def carryOf (b : Bit) : UInt8 := if b = .one then 1 else 0

/-- The digits after some more bits have been read, with one `doubleAdd` for each of them. -/
def digitsFrom (digits : List UInt8) (bits : List Bit) : List UInt8 :=
  bits.foldl (fun ds b => doubleAdd ds (carryOf b)) digits

/-- The decimal digits of the number that the bits denote, least significant first. They start
from `[0]`, so that zero has a single digit. -/
def digitsOf (bits : List Bit) : List UInt8 := digitsFrom [0] bits

/-- The character of a digit of `digitsOf`. -/
def digitChar (d : UInt8) : Char := Char.ofNat ('0'.toNat + d.toNat)

/-- The **decimal numeral** of the number that the bits denote: its `digitsOf`, most significant
first. -/
def ofBits (bits : List Bit) : String :=
  String.ofList ((digitsOf bits).reverse.map digitChar)

/-! ### Shortest decimals -/

/-- A decimal numeral `digits * 10 ^ exponent`. -/
structure Numeral where
  digits : Nat
  exponent : Int
  deriving DecidableEq, Inhabited

/-- A positive fraction and the interval of reals that are rounded to it, all three over the
denominator `den`. -/
structure Rounding where
  /-- Numerator of the lower end. -/
  low : Nat
  /-- Numerator of the number itself. -/
  value : Nat
  /-- Numerator of the upper end. -/
  high : Nat
  /-- The common denominator. -/
  den : Nat
  /-- The ends themselves are rounded to the number. -/
  closed : Bool

/-- The interval around `m * 2 ^ q`. It reaches half-way to each neighbour, and the lower
neighbour of a power of two is only half as far away as the upper one, except at the
bottom of the format. The ends belong to the number with the even significand. -/
def Rounding.ofBinary (m : Nat) (q : Int) (atBinade : Bool) : Rounding :=
  let up := 1 <<< q.toNat
  { low := (4 * m - if atBinade then 1 else 2) * up
    value := 4 * m * up
    high := (4 * m + 2) * up
    den := 4 <<< (-q).toNat
    closed := m % 2 = 0 }

/-- Number of decimal digits of a natural number, at least one. -/
def length (n : Nat) : Nat := (Nat.toDigits 10 n).length

/-- The exponent of the leading digit of a positive fraction: the greatest `k` with
`10 ^ k` at most the fraction. -/
def leadingExponent (num den : Nat) : Int :=
  if den ≤ num then length (num / den) - 1
  else -(length ((den + num - 1) / num - 1) : Int)

namespace Rounding

/-- Scales all numerators and the denominator so that the grid `10 ^ p` becomes the
integers. -/
def onGrid (r : Rounding) (p : Int) : Rounding :=
  let up := Nat.pow 10 (-p).toNat
  { r with low := r.low * up, value := r.value * up, high := r.high * up,
           den := r.den * Nat.pow 10 p.toNat }

/-- The integer is in the interval, and so it is rounded to the `value`. -/
def holds (r : Rounding) (d : Nat) : Bool :=
  if r.closed then r.low ≤ d * r.den && d * r.den ≤ r.high
  else r.low < d * r.den && d * r.den < r.high

/-- The integer that the interval `holds` and that is nearest to the number, the upper one of two
that are equally near. -/
def nearest? (r : Rounding) : Option Nat :=
  let below := r.value / r.den
  let above := below + 1
  match r.holds below, r.holds above with
  | true, true =>
    if r.value - below * r.den < above * r.den - r.value then some below else some above
  | true, false => some below
  | false, true => some above
  | false, false => none

/-- Tries the grids with `count` digits, one more at a time, at most `more` of them. -/
def search (r : Rounding) (leading : Int) (count : Nat) : (more : Nat) → Numeral
  | 0 => ⟨0, 0⟩
  | more + 1 =>
    let p := leading + 1 - count
    match (r.onGrid p).nearest? with
    | some d => ⟨d, p⟩
    | none => search r leading (count + 1) more

end Rounding

/-- The **shortest decimal** of `m * 2 ^ q`. Seventeen digits suffice for every number of
a format with 53-bit significands. -/
def shortest (m : Nat) (q : Int) (atBinade : Bool) : Numeral :=
  let r := Rounding.ofBinary m q atBinade
  r.search (leadingExponent r.value r.den) 1 17

/-- Writes a `Numeral` without an exponent: with zeros to its right when it is a large whole
number, and with a point and zeros to its left when it is small. -/
def Numeral.positional (n : Numeral) : String :=
  if 0 ≤ n.exponent then toString (n.digits * Nat.pow 10 n.exponent.toNat)
  else
    let places := (-n.exponent).toNat
    let whole := n.digits / Nat.pow 10 places
    let part := Nat.toDigits 10 (n.digits % Nat.pow 10 places)
    let padded := List.replicate (places - part.length) '0' ++ part
    let kept := (padded.reverse.dropWhile (· = '0')).reverse
    if kept.isEmpty then toString whole
    else toString whole ++ "." ++ String.ofList kept

end Waveform.Decimal
