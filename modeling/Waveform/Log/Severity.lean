/-!
# Severity of Log Lines

Log lines have one of five levels of severity. A filter lets through the lines down to a
level of its choice, or none at all.
-/

namespace Waveform.Log

/-- The level of a log line, from the most severe to the most detailed. -/
inductive Severity where
  | error
  | warn
  | info
  | debug
  | trace
  deriving DecidableEq, Inhabited

namespace Severity

/-- The position in the order of severity, with `error` first. -/
def rank : Severity → Nat
  | error => 1
  | warn => 2
  | info => 3
  | debug => 4
  | trace => 5

/-- The name in log lines. -/
def name : Severity → String
  | error => "ERROR"
  | warn => "WARN"
  | info => "INFO"
  | debug => "DEBUG"
  | trace => "TRACE"

end Severity

/-- The most detailed `Severity` that is let through, or none of them. -/
inductive Threshold where
  | off
  | upTo (level : Severity)
  deriving DecidableEq, Inhabited

namespace Threshold

/-- A line of the given severity is let through: its `rank` is not behind the threshold's. -/
def admits : Threshold → Severity → Bool
  | off, _ => false
  | upTo level, s => s.rank ≤ level.rank

/-- Every line is let through: the threshold is at `Severity.trace`. -/
def everything : Threshold := .upTo .trace

/-- Reads a threshold: off, or the `Severity.name` of a level, in any mixture of cases. -/
def ofName? (name : String) : Option Threshold :=
  match name.map Char.toLower with
  | "off" => some .off
  | "error" => some (.upTo .error)
  | "warn" => some (.upTo .warn)
  | "info" => some (.upTo .info)
  | "debug" => some (.upTo .debug)
  | "trace" => some (.upTo .trace)
  | _ => none

end Threshold

end Waveform.Log
