import Waveform.Interchange.Cases
import Waveform.Interchange.Integer
import Waveform.Signal
import Waveform.TimeAxis

/-!
# Records in JSON

A record is written as an object of its fields. The reader takes such an object, in which
every field has to be present and other keys do not matter, and also an array of exactly
the fields, in the order of the record.

A value is an object with a single key, which says of what kind the value is.
-/

namespace Waveform

/-! ### Values and changes -/

namespace Value

/-- A value is written under the name of its constructor. -/
def toJson : Value → Json
  | scalar bit => .obj [("Scalar", bit.toJson)]
  | vector bits => .obj [("Vector", .arr (bits.map Bit.toJson))]
  | real number => .obj [("Real", .real number)]

/-- Reads a value of the constructor that its only key names. -/
def ofJson? : Json → Option Value
  | .obj [("Scalar", j)] => (Bit.ofJson? j).map scalar
  | .obj [("Vector", .arr js)] => (Json.elements? Bit.ofJson? js).map vector
  | .obj [("Real", j)] => j.real?.map real
  | _ => none

end Value

namespace Change

/-- A change is written as a record. -/
def toJson (c : Change) : Json :=
  .obj [("time", .int c.time.toInt), ("value", c.value.toJson)]

/-- Reads a change by its `fields?`. -/
def ofJson? (j : Json) : Option Change :=
  match j.fields? ["time", "value"] with
  | some [time, value] =>
    match time.int64?, Value.ofJson? value with
    | some time, some value => some ⟨time, value⟩
    | _, _ => none
  | _ => none

end Change

/-! ### Settings -/

namespace Settings

/-- Settings are written as a record. -/
def toJson (s : Settings) : Json :=
  .obj [("multi_thread", .bool s.concurrent), ("unknown_bits", s.unknownBits.toJson)]

/-- Reads settings by their `fields?`. -/
def ofJson? (j : Json) : Option Settings :=
  match j.fields? ["multi_thread", "unknown_bits"] with
  | some [concurrent, unknownBits] =>
    match concurrent.bool?, UnknownBits.ofJson? unknownBits with
    | some concurrent, some unknownBits => some ⟨concurrent, unknownBits⟩
    | _, _ => none
  | _ => none

end Settings

/-! ### Timescales and extents -/

namespace Timescale

/-- A timescale is written as a record. -/
def toJson (t : Timescale) : Json :=
  .obj [("factor", .int t.factor.toNat), ("unit", t.unit.toJson)]

/-- Reads a timescale by its `fields?`. -/
def ofJson? (j : Json) : Option Timescale :=
  match j.fields? ["factor", "unit"] with
  | some [factor, unit] =>
    match factor.uint32?, TimeUnit.ofJson? unit with
    | some factor, some unit => some ⟨factor, unit⟩
    | _, _ => none
  | _ => none

end Timescale

namespace Extent

/-- An extent is written as a record. -/
def toJson (e : Extent) : Json :=
  .obj [("start", .int e.start.toInt), ("end", .int e.stop.toInt)]

/-- Reads an extent by its `fields?`. -/
def ofJson? (j : Json) : Option Extent :=
  match j.fields? ["start", "end"] with
  | some [start, stop] =>
    match start.int64?, stop.int64? with
    | some start, some stop => some ⟨start, stop⟩
    | _, _ => none
  | _ => none

end Extent

end Waveform
