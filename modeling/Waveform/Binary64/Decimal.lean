import Waveform.Binary64
import Waveform.Decimal

/-!
# Reals and Decimals

A real is written (`Binary64.text`) with the fewest digits that read back as the same
number, in positional form whatever its size. A whole number has no fraction, a zero keeps
its sign, and the bits that are no finite number are written `NaN`, `inf` and `-inf`.

A decimal `digits * 10 ^ exponent` is read (`Binary64.ofDecimal?`) in two steps. The digits
are rounded to a real, and that real is then multiplied or divided by the power of ten,
which is itself a rounded real. Both steps are exact for decimals with few digits and a
small exponent, and then the result is the number nearest to the decimal. For other
decimals it may be a neighbour of that number.

The largest power of ten in the format has the exponent 308. A decimal that needs a
smaller one is divided by that power first. One that needs a larger one, or whose product
leaves the range of the format, has no reading.
-/

namespace Waveform.Binary64

/-! ### Writing -/

/-- The minus sign of a negative number. -/
def signText (x : Binary64) : String := if x.isNegative then "-" else ""

/-- The shortest decimal of the magnitude of a finite number other than zero, by
`Decimal.shortest`. The gap below a power of two is half as wide as the gap above it, except at
the bottom of the format. -/
def shortestDecimal (x : Binary64) : Decimal.Numeral :=
  Decimal.shortest x.significand x.exponent (x.fraction = 0 && 1 < x.exponentField)

/-- The **text of a real**: its `shortestDecimal` with its sign, or the name of what is no finite
number. -/
def text (x : Binary64) : String :=
  if x.isNaN then "NaN"
  else if x.isInfinite then x.signText ++ "inf"
  else if x.isZero then x.signText ++ "0"
  else x.signText ++ x.shortestDecimal.positional

/-! ### Reading -/

/-- The largest exponent of a power of ten in the format. -/
def largestPower : Nat := 308

/-- The number nearest to a power of ten, by `ofRatio`. -/
def powerOfTen (k : Nat) : Binary64 := ofRatio false (Nat.pow 10 k) 1

/-- Divides by a power of ten, in steps if its exponent is above `largestPower`. -/
def shrink (x : Binary64) (k : Nat) : Binary64 :=
  if largestPower < k then
    if x.isZero then x else shrink (x.dividedBy (powerOfTen largestPower)) (k - largestPower)
  else x.dividedBy (powerOfTen k)
termination_by k
decreasing_by
  simp only [largestPower] at *
  omega

/-- Multiplies by a power of ten, unless the product leaves the range of the format. -/
def grow? (x : Binary64) (k : Nat) : Option Binary64 :=
  if largestPower < k then
    if x.isZero then some x else none
  else
    let product := x.times (powerOfTen k)
    if product.isInfinite then none else some product

/-- The real that a **decimal** `± digits * 10 ^ exponent` is read as. -/
def ofDecimal? (negative : Bool) (digits : Nat) (exponent : Int) : Option Binary64 :=
  let x := ofRatio negative digits 1
  if exponent < 0 then some (x.shrink (-exponent).toNat) else x.grow? exponent.toNat

end Waveform.Binary64
