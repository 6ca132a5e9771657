import Waveform.Bit.Alphabet
import Waveform.Change
import Waveform.Decimal

/-!
# Readings

A reading is what a signal is found to be at some point in time. It is made from the
change in effect by one of two decoders, `Reading.ofScalar` for signals of one bit and
`Reading.ofVector` for all others.

A vector is read at a fixed width. Only its first bits count, up to that width, and a
payload that is shorter gives no reading. Up to 64 bits the reading is a machine word,
beyond that it is a decimal numeral. Bits that are neither a strong zero nor a strong one
are a matter of policy: they count as zeros, or they turn the reading into the text of
the bits.
-/

namespace Waveform

/-- What becomes of non-binary bits in a vector (`Bit.isBinary`). -/
inductive UnknownBits where
  /-- Only a strong one counts, and every other state is a zero. -/
  | asZero
  /-- A vector with a non-binary bit is read as its text. -/
  | propagate
  deriving DecidableEq, Inhabited

/-- What a `Signal` is found to be at a point in time. -/
inductive Reading where
  /-- Nothing is known about the signal at that time. -/
  | unknown
  /-- The state of a one-bit signal. -/
  | scalar (bit : Bit)
  /-- The number in a vector of at most `wordWidth` bits. -/
  | vector (number : UInt64)
  /-- The number in a wider vector, as a numeral of `Decimal.ofBits`. -/
  | wideVector (numeral : String)
  /-- The text of a vector with non-binary bits, as by `Bit.render`. -/
  | partiallyUnknown (text : String)
  /-- A real number. -/
  | real (number : Binary64)
  deriving DecidableEq, Inhabited

namespace Reading

/-- Nothing is known. -/
def isUnknown : Reading → Bool
  | unknown => true
  | _ => false

/-- The reading as a machine word, if it denotes one: a `vector`, or a `scalar` that is
binary. -/
def toUInt64? : Reading → Option UInt64
  | vector number => some number
  | scalar .zero => some 0
  | scalar .one => some 1
  | _ => none

/-- The written form of a reading. -/
def text : Reading → String
  | unknown => "X"
  | scalar bit => bit.char.toString
  | vector number => toString number.toNat
  | wideVector numeral => numeral
  | partiallyUnknown text => text
  | real number => number.text

/-! ### Decoding -/

/-- The widest vector that is read as a machine word by `wordOfBits`. -/
def wordWidth : Nat := 64

/-- Sets the bit of weight `2 ^ i` in a word for the `i`-th bit from the right. -/
def wordOfBits (word : UInt64) : List Bit → UInt64
  | [] => word
  | b :: bs =>
    let weight := (1 : UInt64) <<< UInt64.ofNat bs.length
    wordOfBits (if b = .one then word ||| weight else word) bs

/-- The number in a vector: a word by `wordOfBits`, or a numeral by `Decimal.ofBits` for what
does not fit into one. -/
def ofBinary (bits : List Bit) : Reading :=
  if bits.length ≤ wordWidth then vector (wordOfBits 0 bits) else wideVector (Decimal.ofBits bits)

/-- The reading of the bits of a vector under a `policy` for non-binary ones. -/
def ofBits (policy : UnknownBits) (bits : List Bit) : Reading :=
  if policy = .propagate ∧ Alphabet.ofBits bits ≠ .two then partiallyUnknown (Bit.render bits)
  else ofBinary bits

/-- Decodes the value of a one-bit signal. The leading bit of a vector is read as a `scalar`
too. -/
def ofScalar : Option Change → Reading
  | none => unknown
  | some c =>
    match c.value with
    | .scalar bit => scalar bit
    | .vector [] => unknown
    | .vector (bit :: _) => scalar bit
    | .real number => real number

/-- Decodes exactly `width` bits, most significant first. A negative time marks an invalid
change, which has no reading. -/
def ofVector (change? : Option Change) (width : Nat) (policy : UnknownBits) : Reading :=
  match change? with
  | none => unknown
  | some c =>
    if c.time < 0 then unknown
    else
      match c.value with
      | .real number => real number
      | .scalar bit => ofPayload [bit]
      | .vector bits => ofPayload bits
where
  /-- Decodes the leading bits of a payload that is long enough, by `ofBits`. -/
  ofPayload (bits : List Bit) : Reading :=
    if width = 0 ∨ bits.length < width then unknown else ofBits policy (bits.take width)

end Reading

end Waveform
