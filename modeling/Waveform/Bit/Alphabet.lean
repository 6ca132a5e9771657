import Waveform.Bit

/-!
# Alphabets of Bit States

Most recorded vectors are plain binary, some also need unknown and undriven bits, and a
few need all nine states. The **alphabet** of a list of bits is the smallest of these
three sets that holds all of them.

The alphabets are ordered by inclusion (`Alphabet.rank`), `Alphabet.join` is their maximum,
and `Alphabet.ofBits` scans a list for its alphabet. The scan stops at the first bit that
needs all nine states, since nothing can change the answer after that.
-/

namespace Waveform

/-- A set of bit states, wide enough for two, four or all nine of them. -/
inductive Alphabet where
  /-- Strong zero and strong one. -/
  | two
  /-- The binary states, unknown, and high impedance. -/
  | four
  /-- Every state. -/
  | nine
  deriving DecidableEq, Inhabited

namespace Alphabet

/-- The position of an alphabet in the order of inclusion, along which `≤` and `<` are
defined. -/
def rank : Alphabet → Nat
  | two => 0
  | four => 1
  | nine => 2

instance : LT Alphabet := ⟨fun a b => a.rank < b.rank⟩

instance : LE Alphabet := ⟨fun a b => a.rank ≤ b.rank⟩

instance (a b : Alphabet) : Decidable (a < b) :=
  inferInstanceAs (Decidable (a.rank < b.rank))

instance (a b : Alphabet) : Decidable (a ≤ b) :=
  inferInstanceAs (Decidable (a.rank ≤ b.rank))

/-- The smallest alphabet that includes both. -/
def join (a b : Alphabet) : Alphabet := if a ≤ b then b else a

end Alphabet

/-- The smallest alphabet that has the bit. The weak states need `Alphabet.nine`. -/
def Bit.alphabet : Bit → Alphabet
  | .zero | .one => .two
  | .x | .z => .four
  | _ => .nine

namespace Alphabet

/-- Widens `seen` bit by bit, and stops as soon as it cannot widen any more. -/
def widen (seen : Alphabet) : List Bit → Alphabet
  | [] => seen
  | b :: bs =>
    match seen.join b.alphabet with
    | nine => nine
    | wider => widen wider bs

/-- The **alphabet of a list of bits**: the smallest one that has the `Bit.alphabet` of all of
them. -/
def ofBits (bits : List Bit) : Alphabet := widen two bits

end Alphabet

end Waveform
