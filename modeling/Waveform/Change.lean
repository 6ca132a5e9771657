import Waveform.Binary64.Decimal
import Waveform.Bit.Text

/-!
# Changes

A change is the unit of recording: from a point in simulation time on, a signal has a
new value. Times are signed, since loaders mark invalid changes by negative ones.

A change records one of three kinds of `Value`: a single bit, a vector of bits, or a real.
The bits of a vector are listed from the most significant one down. An empty vector is
legal and says that the vector's data was not available.
-/

namespace Waveform

/-- The **value** that a `Change` records. -/
inductive Value where
  /-- A single bit. -/
  | scalar (bit : Bit)
  /-- The bits of a vector, most significant first. -/
  | vector (bits : List Bit)
  /-- A real number. -/
  | real (number : Binary64)
  deriving DecidableEq, Inhabited

namespace Value

/-- The low `width` bits of a natural number as a binary vector. -/
def ofNat (n width : Nat) : Value :=
  .vector ((List.range width).reverse.map fun i => if n.testBit i then .one else .zero)

/-- The bits of a value, a `scalar` counting as one of them. A `real` has none. -/
def bits? : Value → Option (List Bit)
  | scalar bit => some [bit]
  | vector bits => some bits
  | real _ => none

/-- The number of its `bits?`. A real has none. -/
def width? (v : Value) : Option Nat := v.bits?.map List.length

/-- The value is an empty `vector`, which stands for data that was not available. -/
def isAbsent : Value → Bool
  | vector [] => true
  | _ => false

/-- The number of bits stored in a vector of their own, outside of the change. -/
def payloadSize : Value → Nat
  | vector bits => bits.length
  | _ => 0

/-- The written form: a bit string as by `Bit.render`, or the `Binary64.text` of a real. -/
def text : Value → String
  | scalar bit => bit.char.toString
  | vector bits => Bit.render bits
  | real number => number.text

/-- Equality of values, in which reals compare by `Binary64.ieeeEq`. A scalar never equals a
vector, not even one of a single bit. -/
def sameAs : Value → Value → Bool
  | scalar a, scalar b => a = b
  | vector a, vector b => a = b
  | real a, real b => a.ieeeEq b
  | _, _ => false

end Value

/-- **Simulation time**, in units of the recording's `Timescale`. -/
abbrev Time := Int64

/-- A **change**: from `time` on, the signal has the value. -/
structure Change where
  time : Time
  value : Value
  deriving DecidableEq, Inhabited

/-- Equality of changes, in which reals compare as in `Value.sameAs`. -/
def Change.sameAs (a b : Change) : Bool := a.time == b.time && a.value.sameAs b.value

end Waveform
