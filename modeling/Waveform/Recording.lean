import Waveform.ChangeTimes
import Waveform.Recorder.NameTable
import Waveform.Text.Pieces
import Waveform.TimeAxis

/-!
# Recordings

A recording is complete: its histories do not change any more. It finds signals by name,
answers queries about one signal or several, and lists the times at which signals change.
Only the settings of its queries can still be altered.

A signal is named by its `SignalId`. Where a recording has no such signal, there is no
answer.

The statistics say how many signals and changes a recording has, which signal has the
longest history, and how much memory all of it takes up. Each of these is a message of its
own. It takes up one line, or several if the signal's name does.
-/

namespace Waveform

/-- A complete **recording**, as `Recorder.finish` leaves it. -/
structure Recording where
  /-- The signals, in the order in which they were declared. -/
  signals : Array Signal
  /-- The names under which `lookup?` finds signals. -/
  names : NameTable
  /-- The times of the earliest and of the latest change, if there is any change. -/
  extent? : Option Extent
  timescale? : Option Timescale
  settings : Settings
  deriving Inhabited

namespace Recording

/-- The number of signals. -/
def size (r : Recording) : Nat := r.signals.size

/-- There are no signals: `size` is zero. -/
def isEmpty (r : Recording) : Bool := r.signals.isEmpty

/-- The identities of all signals, one for every index below `size`. -/
def ids (r : Recording) : List SignalId := (List.range r.size).filterMap SignalId.ofIndex?

/-- Finds a signal by its plain name or by its `Signal.fullName`. -/
def lookup? (r : Recording) (name : String) : Option SignalId := r.names.owner? name

/-- The signal with the given identity. -/
def signal? (r : Recording) (id : SignalId) : Option Signal := r.signals[id.index]?

/-- The signals with the given identities, if `signal?` finds all of them. -/
def signals? (r : Recording) : List SignalId → Option (List Signal)
  | [] => some []
  | id :: ids =>
    match r.signal? id, r.signals? ids with
    | some s, some ss => some (s :: ss)
    | _, _ => none

/-- Queries are answered under other settings from now on. -/
def withSettings (r : Recording) (settings : Settings) : Recording :=
  { r with settings := settings }

/-- What answers the queries: the `Engine` with the settings of the recording. -/
def engine (r : Recording) : Engine := ⟨r.settings⟩

/-- The **reading** of a signal at a time, by `Engine.query`. -/
def query? (r : Recording) (id : SignalId) (time : Time) : Option Reading :=
  (r.signal? id).map fun s => r.engine.query s time

/-- The readings of several signals at the same time, each as by `query?`. -/
def queryMany? (r : Recording) (ids : List SignalId) (time : Time) : Option (List Reading) :=
  (r.signals? ids).map fun ss => ss.map fun s => r.engine.query s time

/-- The times at which at least one of the signals changes, in increasing order and each of them
once (`changeTimes` of their histories). -/
def changeTimes? (r : Recording) (ids : List SignalId) : Option (List Time) :=
  (r.signals? ids).map fun ss => changeTimes (ss.map Signal.history)

/-- A one-line summary: the number of signals and the `extent?`. -/
def summary (r : Recording) : String :=
  s!"Trace({r.size} signals, {Extent.optionText r.extent?})"

/-! ### Statistics -/

/-- The size of a recording without signals and names. -/
def headerSize : Nat := 96

/-- The estimated size of a signal in bytes: `History.footprint` and the bytes of its name. -/
def signalFootprint (s : Signal) : Nat := s.history.footprint + s.name.utf8ByteSize

/-- The **footprint** of a recording: its estimated size in bytes, which is the `headerSize`, the
names and every `signalFootprint`. -/
def footprint (r : Recording) : Nat :=
  headerSize + r.signals.toList.foldr (fun s total => signalFootprint s + total) 0 +
    r.names.footprint

/-- The number of changes of all signals. -/
def changeCount (r : Recording) : Nat :=
  r.signals.toList.foldr (fun s total => s.history.size + total) 0

/-- The one with the longer `history`, and the second one if both are equally long. -/
def busier (a b : Signal) : Signal := if b.history.size < a.history.size then a else b

/-- The signal that is `busier` than the others, and the last of several such. -/
def busiest? (r : Recording) : Option Signal :=
  match r.signals.toList with
  | [] => none
  | s :: ss => some (ss.foldl busier s)

/-- What stands at the front of every message of the statistics. -/
def messageLabel : String := "[wavehist] "

/-- The messages of the statistics. Without signals there is none about the longest
history. -/
def statisticsMessages (r : Recording) : List String :=
  let busiest :=
    match r.busiest? with
    | none => []
    | some s => [s!"{s.name} has the longest history with {s.history.size} changes."]
  ([s!"{r.size} signals with {r.changeCount} changes in total."] ++ busiest ++
    [s!"size in memory: {r.footprint} bytes"]).map (messageLabel ++ ·)

/-- The lines of the **statistics**: its `statisticsMessages`, cut into lines. -/
def statistics (r : Recording) : List String := r.statisticsMessages.flatMap Text.linesOf

end Recording

end Waveform
