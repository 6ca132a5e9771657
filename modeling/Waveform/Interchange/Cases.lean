import Waveform.Bit.Alphabet
import Waveform.Json
import Waveform.Reading
import Waveform.TimeAxis

/-!
# Named Cases in JSON

A type that only lists cases is written as the name of the case. The reader takes the
name, and also an object that maps the name to null.
-/

namespace Waveform

/-! ### Bits -/

namespace Bit

/-- The name of a state. -/
def caseName : Bit → String
  | zero => "Zero"
  | x => "X"
  | z => "Z"
  | one => "One"
  | h => "H"
  | u => "U"
  | w => "W"
  | l => "L"
  | dash => "Dash"

/-- The state with this `caseName`. -/
def ofCaseName? (name : String) : Option Bit := all.find? fun b => b.caseName = name

/-- A bit is written as its `caseName`. -/
def toJson (b : Bit) : Json := .str b.caseName

/-- Reads the name of a bit. -/
def ofJson? (j : Json) : Option Bit := j.caseName?.bind ofCaseName?

end Bit

/-! ### Alphabets -/

namespace Alphabet

/-- Every alphabet. -/
def all : List Alphabet := [two, four, nine]

/-- The name of an alphabet. -/
def caseName : Alphabet → String
  | two => "Two"
  | four => "Four"
  | nine => "Nine"

/-- The alphabet with this `caseName`. -/
def ofCaseName? (name : String) : Option Alphabet := all.find? fun a => a.caseName = name

/-- An alphabet is written as its `caseName`. -/
def toJson (a : Alphabet) : Json := .str a.caseName

/-- Reads the name of an alphabet. -/
def ofJson? (j : Json) : Option Alphabet := j.caseName?.bind ofCaseName?

end Alphabet

/-! ### Policies for non-binary bits -/

namespace UnknownBits

/-- Every policy. -/
def all : List UnknownBits := [asZero, propagate]

/-- The name of a policy. -/
def caseName : UnknownBits → String
  | asZero => "TreatAsZero"
  | propagate => "Propagate"

/-- The policy with this `caseName`. -/
def ofCaseName? (name : String) : Option UnknownBits := all.find? fun p => p.caseName = name

/-- A policy is written as its `caseName`. -/
def toJson (p : UnknownBits) : Json := .str p.caseName

/-- Reads the name of a policy. -/
def ofJson? (j : Json) : Option UnknownBits := j.caseName?.bind ofCaseName?

end UnknownBits

/-! ### Units of time -/

namespace TimeUnit

/-- Every unit. -/
def all : List TimeUnit :=
  [femtoseconds, picoseconds, nanoseconds, microseconds, milliseconds, seconds, unknown]

/-- The name of a unit. -/
def caseName : TimeUnit → String
  | femtoseconds => "FemtoSeconds"
  | picoseconds => "PicoSeconds"
  | nanoseconds => "NanoSeconds"
  | microseconds => "MicroSeconds"
  | milliseconds => "MilliSeconds"
  | seconds => "Seconds"
  | unknown => "Unknown"

/-- The unit with this `caseName`. -/
def ofCaseName? (name : String) : Option TimeUnit := all.find? fun u => u.caseName = name

/-- A unit is written as its `caseName`. -/
def toJson (u : TimeUnit) : Json := .str u.caseName

/-- Reads the name of a unit. -/
def ofJson? (j : Json) : Option TimeUnit := j.caseName?.bind ofCaseName?

end TimeUnit

end Waveform
