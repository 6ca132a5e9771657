import Waveform.Json
import Waveform.Signal

/-!
# Integers in JSON

Every integer field has a range, and a number outside of it is refused, as is one that
was written with a fraction or an exponent.
-/

namespace Waveform

namespace Json

/-- Reads an `Int64`. -/
def int64? : Json → Option Int64
  | int n =>
    if Int64.minValue.toInt ≤ n ∧ n ≤ Int64.maxValue.toInt then some (Int64.ofInt n) else none
  | _ => none

/-- Reads an `Int32`. -/
def int32? : Json → Option Int32
  | int n =>
    if Int32.minValue.toInt ≤ n ∧ n ≤ Int32.maxValue.toInt then some (Int32.ofInt n) else none
  | _ => none

/-- Reads a `UInt32`. -/
def uint32? : Json → Option UInt32
  | int n => if 0 ≤ n ∧ n < UInt32.size then some (UInt32.ofNat n.toNat) else none
  | _ => none

/-- Reads a truth value. -/
def bool? : Json → Option Bool
  | bool value => some value
  | _ => none

/-- Reads a text. -/
def string? : Json → Option String
  | str value => some value
  | _ => none

/-- Reads a `Binary64`, which may also be written as an integer. -/
def real? : Json → Option Binary64
  | real x => some x
  | int n => some (Binary64.ofInt n)
  | _ => none

/-- Reads every element of an array, and gives `none` if one of them cannot be read. -/
def elements? {α : Type} (read : Json → Option α) : List Json → Option (List α)
  | [] => some []
  | j :: js =>
    match read j, elements? read js with
    | some a, some as => some (a :: as)
    | _, _ => none

end Json

namespace SignalId

/-- A signal is written as its `number`, which counts from one. -/
def toJson (id : SignalId) : Json := .int id.number

/-- Reads the `number` of a signal. -/
def ofJson? : Json → Option SignalId
  | .int n => if 1 ≤ n then ofIndex? (n.toNat - 1) else none
  | _ => none

end SignalId

end Waveform
