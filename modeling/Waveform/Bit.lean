/-!
# Nine-Valued Bits

A recorded bit is not just zero or one. Simulators also know bits that are undefined,
undriven or only weakly driven, and `Bit` has one constructor for each of the nine
states of the standard logic system.

Every state has two external forms, and both come with a reader:

* a **tag**, the number under which loaders store the state in a byte buffer
  (`Bit.tag`, `Bit.ofTag?`). Tags follow the loaders' layout, in which one does not
  directly follow zero;
* a **character**, lower case when written and of either case when read
  (`Bit.char`, `Bit.ofChar?`).

The two small lemmas `Bit.ofTag?_tag` and `Bit.ofChar?_char` say that each reader
inverts its writer.
-/

namespace Waveform

/-- The state of a single bit. -/
inductive Bit where
  /-- A strong zero. -/
  | zero
  /-- A strong unknown. -/
  | x
  /-- High impedance: the bit is not driven. -/
  | z
  /-- A strong one. -/
  | one
  /-- A weak one. -/
  | h
  /-- Not initialised. -/
  | u
  /-- A weak unknown. -/
  | w
  /-- A weak zero. -/
  | l
  /-- Don't care. -/
  | dash
  deriving DecidableEq, Inhabited

namespace Bit

/-- Every state, in the order of the tags (`Bit.tag`). -/
def all : List Bit := [zero, x, z, one, h, u, w, l, dash]

/-- The number that stands for a state in a loader's buffer, its index in `Bit.all`. -/
def tag : Bit → Nat
  | zero => 0
  | x => 1
  | z => 2
  | one => 3
  | h => 4
  | u => 5
  | w => 6
  | l => 7
  | dash => 8

/-- Reads a `tag`. There is no state for a number above eight. -/
def ofTag? (tag : Nat) : Option Bit := all[tag]?

/-- The written form of a state, in lower case. `Bit.ofChar?` reads it. -/
def char : Bit → Char
  | zero => '0'
  | x => 'x'
  | z => 'z'
  | one => '1'
  | h => 'h'
  | u => 'u'
  | w => 'w'
  | l => 'l'
  | dash => '-'

/-- Reads a written state. The letters of `Bit.char` are accepted in both cases. -/
def ofChar? : Char → Option Bit
  | '0' => some zero
  | '1' => some one
  | 'x' | 'X' => some x
  | 'z' | 'Z' => some z
  | 'h' | 'H' => some h
  | 'u' | 'U' => some u
  | 'w' | 'W' => some w
  | 'l' | 'L' => some l
  | '-' => some dash
  | _ => none

/-- A bit is **binary** when it is a strong zero or a strong one, `zero` or `one`. -/
def isBinary : Bit → Bool
  | zero | one => true
  | _ => false

/-- The number a bit contributes at its position: one for a strong `one`, and nothing for every
other state. -/
def toNat (b : Bit) : Nat := if b = one then 1 else 0

theorem ofTag?_tag (b : Bit) : ofTag? b.tag = some b := by
  cases b <;> rfl

theorem ofChar?_char (b : Bit) : ofChar? b.char = some b := by
  cases b <;> rfl

end Bit

end Waveform
