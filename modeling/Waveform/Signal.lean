import Waveform.History.Lookup
import Waveform.Reading

/-!
# Signals and Queries

A signal is a named history together with the range of its bits, from the index of the
most significant one (`msi`) to that of the least significant one (`lsi`). The range may
run in either direction, and it may cover all 32-bit integers, so that a signal is up to
`2 ^ 32` bits wide. A signal of width one is a **scalar**, and all others are vectors.

A vector has two names: its plain one, and its **full name**, to which the range is
appended in brackets.

A query asks what a signal was at a point in time. It finds the change in effect and
decodes it according to the width of the signal (`Engine.query`), and it never alters a
history.
-/

namespace Waveform

/-- The identity of a signal within a `Recording`: its position, counted from zero. A position
counted from one has to fit into 32 bits. -/
structure SignalId where
  index : Nat
  index_lt : index + 1 < UInt32.size
  deriving DecidableEq

namespace SignalId

/-- The signal at a position, unless the position is too large for a `SignalId`. -/
def ofIndex? (index : Nat) : Option SignalId :=
  if h : index + 1 < UInt32.size then some ⟨index, h⟩ else none

/-- The position counted from one. -/
def number (id : SignalId) : Nat := id.index + 1

/-- How messages name a signal that has no other name, by its `number`. -/
def label (id : SignalId) : String := s!"SignalRef({id.number})"

end SignalId

/-- A **signal**: its name, the range of its bits, and its history. -/
structure Signal where
  /-- The plain name. -/
  name : String
  /-- Index of the most significant bit. -/
  msi : Int32
  /-- Index of the least significant bit. -/
  lsi : Int32
  history : History := .empty
  deriving Inhabited

namespace Signal

/-- The number of bits in the range from `msi` to `lsi`, in whichever direction it runs. -/
def width (s : Signal) : Nat := (s.msi.toInt - s.lsi.toInt).natAbs + 1

/-- The signal has a `width` of one bit. -/
def isScalar (s : Signal) : Bool := s.width = 1

/-- The range of a vector in brackets. -/
def rangeText (s : Signal) : String := s!"[{s.msi.toInt}:{s.lsi.toInt}]"

/-- The **full name**, with the `rangeText` if the signal is a vector. -/
def fullName (s : Signal) : String := if s.isScalar then s.name else s.name ++ s.rangeText

/-- The names under which the signal can be found: the `fullName` and the plain one. They are the
same for a scalar. -/
def names (s : Signal) : List String :=
  if s.fullName = s.name then [s.name] else [s.fullName, s.name]

/-- Equality of signals, in which histories compare by `History.sameAs`. -/
def sameAs (a b : Signal) : Bool :=
  a.name == b.name && a.msi == b.msi && a.lsi == b.lsi && a.history.sameAs b.history

end Signal

/-! ### Queries -/

/-- How queries are answered. -/
structure Settings where
  /-- Queries over several signals may be answered concurrently. The answers are the same
  either way. -/
  concurrent : Bool := true
  /-- What becomes of non-binary bits in a vector (`Reading.ofVector`). -/
  unknownBits : UnknownBits := .asZero
  deriving DecidableEq, Inhabited

/-- Answers queries under fixed `Settings`. -/
structure Engine where
  settings : Settings := {}
  deriving DecidableEq, Inhabited

namespace Engine

/-- Decodes the change in effect of a signal, by `Reading.ofScalar` or by `Reading.ofVector`. -/
def decode (e : Engine) (s : Signal) (change? : Option Change) : Reading :=
  if s.isScalar then Reading.ofScalar change?
  else Reading.ofVector change? s.width e.settings.unknownBits

/-- The **reading of a signal** at a time: the change `History.inEffect?`, decoded by
`decode`. -/
def query (e : Engine) (s : Signal) (time : Time) : Reading :=
  e.decode s (s.history.inEffect? time)

end Engine

end Waveform
