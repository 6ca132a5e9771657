import Waveform.Signal

/-!
# The Time Axis of a Recording

The **timescale** of a recording says what one unit of simulation time is worth: a factor
and a unit, such as 10 ns. Loaders that do not know the unit say so.

The **extent** of a recording reaches from its earliest change to its latest. It is found
from the ends of the histories alone (`Extent.ofSignals?`), since each history is in the
order of its times.
-/

namespace Waveform

/-- A unit of time. -/
inductive TimeUnit where
  | femtoseconds
  | picoseconds
  | nanoseconds
  | microseconds
  | milliseconds
  | seconds
  /-- The loader did not know the unit. -/
  | unknown
  deriving DecidableEq, Inhabited

namespace TimeUnit

/-- The power of ten of the unit in seconds, if the unit is not `unknown`. -/
def exponent? : TimeUnit → Option Int
  | femtoseconds => some (-15)
  | picoseconds => some (-12)
  | nanoseconds => some (-9)
  | microseconds => some (-6)
  | milliseconds => some (-3)
  | seconds => some 0
  | unknown => none

/-- The symbol of the unit. -/
def symbol : TimeUnit → String
  | femtoseconds => "fs"
  | picoseconds => "ps"
  | nanoseconds => "ns"
  | microseconds => "us"
  | milliseconds => "ms"
  | seconds => "s"
  | unknown => "?"

end TimeUnit

/-- What one unit of simulation `Time` is worth. -/
structure Timescale where
  factor : UInt32
  unit : TimeUnit
  deriving DecidableEq, Inhabited

/-- The written form: the factor and the symbol of the unit. -/
def Timescale.text (t : Timescale) : String := s!"{t.factor.toNat} {t.unit.symbol}"

/-- The times of the earliest and of the latest change. -/
structure Extent where
  start : Time
  stop : Time
  deriving DecidableEq, Inhabited

namespace Extent

/-- The written form of the extent in `Notice.message` and `Recording.summary`. -/
def text (e : Extent) : String :=
  "TimeRange \x7b" ++ s!" start: {e.start}, end: {e.stop} " ++ "\x7d"

/-- The written form of an extent that may be missing. -/
def optionText : Option Extent → String
  | none => "None"
  | some e => s!"Some({e.text})"

/-- The earlier of two times. -/
def earlier (a b : Time) : Time := if b < a then b else a

/-- The later of two times. -/
def later (a b : Time) : Time := if a < b then b else a

/-- The least of some times, by `earlier`. -/
def earliest? : List Time → Option Time
  | [] => none
  | t :: ts => some (ts.foldl earlier t)

/-- The greatest of some times, by `later`. -/
def latest? : List Time → Option Time
  | [] => none
  | t :: ts => some (ts.foldl later t)

/-- The extent of some signals, from `History.firstTime?` and `History.lastTime?` of each. There
is none if they have no change at all. -/
def ofSignals? (signals : List Signal) : Option Extent :=
  match earliest? (signals.filterMap fun s => s.history.firstTime?),
    latest? (signals.filterMap fun s => s.history.lastTime?) with
  | some start, some stop => some ⟨start, stop⟩
  | _, _ => none

end Extent

end Waveform
