import Waveform.Demo.Report

/-!
# The Command Line

Runs the demonstration with the arguments of the command line, prints its output, and
ends with its exit code. All that is decided here is where the arguments and the log
filter come from.
-/

/-- The variable of the environment that holds the filter of the log. -/
def Waveform.Demo.filterVariable : String := "RUST_LOG"

def main (arguments : List String) : IO UInt32 := do
  let filter? ← IO.getEnv Waveform.Demo.filterVariable
  let result := Waveform.Demo.run arguments filter?
  for line in result.lines do
    IO.println line
  return result.code
