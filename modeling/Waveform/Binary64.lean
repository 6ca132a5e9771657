/-!
# Double-Precision Reals

A real-valued signal records numbers in the IEEE 754 format **binary64**. `Binary64` is
such a number as its 64 bits, so that two recorded values are the same exactly when
their bits are. The comparison of the standard, under which a NaN differs from
everything and the two zeros are equal, is the separate function `Binary64.ieeeEq`.

A finite number is `significand * 2 ^ exponent`, up to its sign. `Binary64.ofRatio` goes
the other way: it gives the nearest number to a fraction, and the one with the even
significand when two are equally near. Products and quotients are rounded by it.
-/

namespace Waveform

/-- A **binary64** number, given by its bits. -/
structure Binary64 where
  /-- Sign, biased exponent and fraction, from the most significant bit down. -/
  bits : UInt64
  deriving DecidableEq, Inhabited

namespace Binary64

/-! ### Reading the fields -/

/-- The sign bit is set. -/
def isNegative (x : Binary64) : Bool := 1 <<< 63 ≤ x.bits.toNat

/-- The `bits` without the sign. -/
def magnitude (x : Binary64) : Nat := x.bits.toNat % (1 <<< 63)

/-- The biased exponent, which is 2047 for the bits that are no finite number (`isNaN`,
`isInfinite`). -/
def exponentField (x : Binary64) : Nat := x.magnitude >>> 52

/-- The stored part of the significand. -/
def fraction (x : Binary64) : Nat := x.magnitude % (1 <<< 52)

/-- The bits denote no number. -/
def isNaN (x : Binary64) : Bool := x.exponentField = 2047 && x.fraction ≠ 0

/-- The bits denote one of the two infinities. -/
def isInfinite (x : Binary64) : Bool := x.exponentField = 2047 && x.fraction = 0

/-- The bits denote one of the two zeros. -/
def isZero (x : Binary64) : Bool := x.magnitude = 0

/-- The integer significand of a finite number, whose leading bit is not part of the
`fraction`. -/
def significand (x : Binary64) : Nat :=
  if x.exponentField = 0 then x.fraction else x.fraction + (1 <<< 52)

/-- The power of two that scales the `significand` of a finite number. -/
def exponent (x : Binary64) : Int := (max x.exponentField 1 : Nat) - 1075

/-- Equality of the IEEE standard: a NaN equals nothing, and the two zeros are equal. -/
def ieeeEq (x y : Binary64) : Bool :=
  !x.isNaN && !y.isNaN && (x.bits == y.bits || (x.isZero && y.isZero))

/-! ### Rounding a fraction -/

/-- The bits of the sign. -/
def signBits (negative : Bool) : Nat := if negative then 1 <<< 63 else 0

/-- The quotient rounded to the nearest integer, to the even one when two are nearest. -/
def roundedQuotient (num den : Nat) : Nat :=
  let q := num / den
  let rest := 2 * (num % den)
  if rest < den ∨ (rest = den ∧ q % 2 = 0) then q else q + 1

/-- A fraction scaled by `2 ^ (-exponent)`, as numerator and denominator. -/
def scaled (num den : Nat) (exponent : Int) : Nat × Nat :=
  if 0 ≤ exponent then (num, den <<< exponent.toNat)
  else (num <<< (-exponent).toNat, den)

/-- The exponent at which a positive fraction has a 53-bit significand, or the least
exponent of the format if that one is larger. -/
def roundingExponent (num den : Nat) : Int :=
  let guess : Int := (num.log2 : Int) - den.log2 - 53
  let (n, d) := scaled num den guess
  max (if n / d < 1 <<< 53 then guess else guess + 1) (-1074)

/-- The `magnitude` of the number nearest to a positive fraction. Consecutive numbers have
consecutive magnitudes, so a significand that is rounded up to the next power of two needs no
case of its own. -/
def magnitudeOfRatio (num den : Nat) : Nat :=
  let e := roundingExponent num den
  let (n, d) := scaled num den e
  min (roundedQuotient n d + ((e + 1074).toNat <<< 52)) (2047 <<< 52)

/-- The number nearest to `± num / den`, with ties to the even significand. -/
def ofRatio (negative : Bool) (num den : Nat) : Binary64 :=
  let magnitude := if num = 0 then 0 else magnitudeOfRatio num den
  ⟨UInt64.ofNat (signBits negative + magnitude)⟩

/-- The number nearest to an integer, by `ofRatio`. -/
def ofInt (n : Int) : Binary64 := ofRatio (n < 0) n.natAbs 1

/-- The magnitude of a finite number as a fraction, from its `significand` and its `exponent`. -/
def ratio (x : Binary64) : Nat × Nat := scaled x.significand 1 (-x.exponent)

/-- The product of two finite numbers, with the sign of the first. -/
def times (x y : Binary64) : Binary64 :=
  ofRatio x.isNegative (x.ratio.1 * y.ratio.1) (x.ratio.2 * y.ratio.2)

/-- The quotient of two finite numbers, with the sign of the first. The second must not be
zero. -/
def dividedBy (x y : Binary64) : Binary64 :=
  ofRatio x.isNegative (x.ratio.1 * y.ratio.2) (x.ratio.2 * y.ratio.1)

end Binary64

end Waveform
