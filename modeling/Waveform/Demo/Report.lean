import Waveform.Demo.Arguments
import Waveform.Demo.Testbench
import Waveform.Log.Filter
import Waveform.Recording

/-!
# The Demonstration's Report

The report describes the testbench: its extent and timescale, its signals, a table with
the readings of the clock and the counter, and single readings at some times. The
statistics of the recording follow if the log is as detailed as that.

`Demo.run` takes the arguments of the demonstration and gives its output and exit code. Instead
of the report they may ask for the version, or for the help (`Demo.help`), which describes the
arguments.
-/

namespace Waveform.Demo

/-- The name under which the demonstration is called, and the target of its log. -/
def programName : String := "read_signal"

/-- The version of the library. -/
def version : String := "0.1.0"

/-! ### The help -/

/-- The column in which the help describes the options. -/
def helpColumn : Nat := 27

/-- A line of the help: an option, and what it does from the `helpColumn` on. -/
def helpLine (option description : String) : String :=
  Text.padRight helpColumn option ++ description

/-- What an option is if it is not given. -/
def usually (value : String) : String := s!" [default: {value}]"

/-- The lines of the **help**, in which the usual values are those of `Arguments`. -/
def help : List String :=
  let usual : Arguments := {}
  ["Prints the values of a clock and a cycle counter over time.",
    "",
    s!"Usage: {programName} [OPTIONS]",
    "",
    "Options:",
    helpLine "      --end <END>" "last simulation time of the generated testbench trace" ++
      usually (toString usual.last),
    helpLine "      --step <STEP>" "distance between two printed rows" ++
      usually (toString usual.step),
    helpLine "      --changes"
      "print one row per change instead of one row every `step` time units",
    helpLine "      --propagate-unknown"
      "print vectors with x or z bits as bit strings instead of treating those bits as 0",
    helpLine "      --single-thread" "",
    helpLine "      --at <AT>" "times at which to print individual values" ++
      usually (" ".intercalate (usual.readings.map toString)),
    helpLine "  -h, --help" "Print help",
    helpLine "  -V, --version" "Print version"]

/-! ### The parts of the report -/

/-- The lines about the `extent?` and the timescale of a recording. -/
def overview (r : Recording) : List String :=
  (match r.extent? with
    | none => []
    | some e => [s!"Time range: {e.start} to {e.stop}"]) ++
  (match r.timescale? with
    | none => []
    | some t =>
      match t.unit.exponent? with
      | none => [s!"Time scale: {t.text}"]
      | some e => [s!"Time scale: {t.text} ({t.factor.toNat}e{e} s)"])

/-- The largest number of signals that are listed by name. -/
def listedSignals : Nat := 20

/-- The names of the signals, each with its position. -/
def signalLines : Nat → List Signal → List String
  | _, [] => []
  | index, s :: ss => s!"  [{index}] {s.fullName}" :: signalLines (index + 1) ss

/-- The list of signals, of which `listedSignals` are named at most. -/
def signalList (r : Recording) : List String :=
  ["Available signals:", s!"Total: {r.size} signals"] ++
    signalLines 0 (r.signals.toList.take listedSignals)

/-- The lines about the clock and the counter. -/
def signalInfo (clock counter : Signal) : List String :=
  ["Signal Info:",
    s!"  clk:   {clock.history.size} transitions",
    s!"  cycle: {counter.history.size} transitions, width={counter.width} bits " ++
      counter.rangeText]

/-- A row of the table: the time, and the `Reading.text` of both signals. -/
def row (r : Recording) (clock counter : Signal) (time : Time) : String :=
  let clockText := (r.engine.query clock time).text
  let counterText := (r.engine.query counter time).text
  Text.padLeft 4 (toString time.toInt) ++ s!" |  {clockText}  |  {counterText}"

/-- The times of the rows: every multiple of the step, or every change (`Arguments.changes`). A
step of zero counts as a step of one. -/
def rowTimes (a : Arguments) (clock counter : Signal) : List Time :=
  if a.changes then changeTimes [clock.history, counter.history]
  else Testbench.multiples (max a.step 1) a.last

/-- The table: a heading, and a `row` for each of the `rowTimes`. -/
def table (a : Arguments) (r : Recording) (clock counter : Signal) : List String :=
  ["Signal Values:", "Time | clk | cycle", "-----|-----|------"] ++
    (rowTimes a clock counter).map (row r clock counter)

/-- The readings at a single time. -/
def reading (r : Recording) (clock counter : Signal) (time : Time) : List String :=
  let clockText := (r.engine.query clock time).text
  let counterText := (r.engine.query counter time).text
  [s!"At time {time}:", s!"  tb.clk = {clockText}", s!"  tb.cycle = {counterText}"]

/-! ### The whole report -/

/-- What the program leaves behind: its output, line by line, and its exit `code`. -/
structure Result where
  code : UInt32
  lines : List String
  deriving DecidableEq

/-- The signals that the report is about, found by `Recording.lookup?`. -/
def reportedSignals? (r : Recording) : Option (Signal × Signal) :=
  match r.lookup? "tb.clk", r.lookup? "tb.cycle[7:0]" with
  | some clock, some counter =>
    match r.signal? clock, r.signal? counter with
    | some clock, some counter => some (clock, counter)
    | _, _ => none
  | _, _ => none

/-- The lines of the report after the `signalList`. -/
def details (a : Arguments) (statistics : Bool) (r : Recording) (clock counter : Signal) :
    List String :=
  signalInfo clock counter ++ [""] ++ table a r clock counter ++ [""] ++
    a.readings.flatMap (reading r clock counter) ++
    if statistics then r.statistics else []

/-- The **report** about a recording. It breaks off after the `signalList`, with exit code one,
if the clock or the counter is missing. -/
def report (a : Arguments) (statistics : Bool) (r : Recording) : Result :=
  let opening := overview r ++ [""] ++ signalList r ++ [""]
  match reportedSignals? r with
  | none => { code := 1, lines := opening }
  | some (clock, counter) =>
    { code := 0, lines := opening ++ details a statistics r clock counter }

/-- The `Settings` that the arguments ask for. -/
def Arguments.settings (a : Arguments) : Settings :=
  { concurrent := !a.singleThread
    unknownBits := if a.propagateUnknown then .propagate else .asZero }

/-- Records the testbench by `Testbench.record` and reports about it. -/
def runReport (a : Arguments) (statistics : Bool) : Result :=
  match Testbench.record a.settings a.last with
  | .error _ => { code := 1, lines := [] }
  | .ok r => report a statistics r

/-- The filter of the log is as detailed as the `Recording.statistics`. -/
def wantsStatistics (filter? : Option String) : Bool :=
  let filter :=
    match filter? with
    | none => Log.Filter.default
    | some text => Log.Filter.parse text
  filter.enabled programName .debug

/-- Runs the **demonstration** with the given arguments, and with the log filter from its
environment: `Arguments` are read, and then there is a `runReport`, the `help`, the version or an
error. -/
def run (arguments : List String) (filter? : Option String) : Result :=
  match Arguments.parse arguments with
  | .invalid => { code := 2, lines := [] }
  | .help => { code := 0, lines := help }
  | .version => { code := 0, lines := [s!"{programName} {version}"] }
  | .report a => runReport a (wantsStatistics filter?)

end Waveform.Demo
