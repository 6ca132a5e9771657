import Waveform.Log.Severity
import Waveform.Recording

/-!
# Recorders

A recorder puts a recording together. Signals are declared first, each under its name and
with the range of its bits, and then their changes are recorded in the order of time.

A change has to pass three checks, in this order: its signal exists, its value has as
many bits as the signal, and it is not earlier than the signal's last change. Reals and
empty vectors pass the second check at any width. A change that fails is **rejected**,
and the recorder stays as it was.

Everything that can be asked of a recorder is a `Call`, and `Recorder.perform` answers
one. `Recorder.run` answers a whole list of them.

What a recorder has to tell beyond its answers goes to a log, as a `Notice`: a name that is
not free any more, a change that came too late, and the end of the recording.
-/

namespace Waveform

/-- Something that a `Recorder` reports to the log. -/
inductive Notice where
  /-- A signal was declared under a name that `owner` has already. -/
  | nameTaken (name : String) (owner : SignalId)
  /-- A change of a signal was out of order, as `History.outOfOrder?` puts it. -/
  | changeRejected (name : String) (why : OutOfOrder)
  /-- The recording is complete. -/
  | finished (signals : Nat) (extent? : Option Extent)
  deriving DecidableEq

namespace Notice

/-- How severe the notice is. -/
def severity : Notice → Log.Severity
  | nameTaken _ _ => .warn
  | changeRejected _ _ => .warn
  | finished _ _ => .debug

/-- The notice in words. -/
def message : Notice → String
  | nameTaken name owner =>
    s!"{name} is already used by {owner.label}, lookup will return the first signal"
  | changeRejected name why => s!"rejected change of {name}: {why.message}"
  | finished signals extent? =>
    s!"finished trace with {signals} signals, time range {Extent.optionText extent?}"

/-- The log line of the notice: the name of its `severity`, and its `message`. -/
def line (n : Notice) : String := s!"{n.severity.name} {n.message}"

end Notice

/-- Why `record` does not accept a change. -/
inductive Rejection where
  /-- No signal of that identity was declared. -/
  | unknownSignal (id : SignalId)
  /-- The value does not have as many bits as the signal has by `Signal.width`. -/
  | widthMismatch (expected actual : Nat)
  /-- The change is earlier than the last one in the signal's `History`. -/
  | outOfOrder (why : OutOfOrder)
  deriving DecidableEq

/-- The rejection in words. -/
def Rejection.message : Rejection → String
  | unknownSignal id => s!"unknown signal {id.label}"
  | widthMismatch expected actual => s!"expected a value with {expected} bits, got {actual}"
  | outOfOrder why => why.message

/-- A `Recording` in the making. -/
structure Recorder where
  /-- The signals declared so far, with the changes recorded so far. -/
  signals : Array Signal
  names : NameTable
  timescale? : Option Timescale
  settings : Settings
  deriving Inhabited

namespace Recorder

/-- What can be asked of a `Recorder`. -/
inductive Call where
  /-- Declares a signal. -/
  | declare (name : String) (msi lsi : Int32)
  /-- Records a change of a signal. -/
  | record (id : SignalId) (change : Change)
  /-- Sets the timescale of the recording. -/
  | setTimescale (timescale : Timescale)
  deriving DecidableEq

/-- How a recorder answers a `Call`. -/
inductive Answer where
  /-- The signal was declared. -/
  | declared (id : SignalId)
  /-- `SignalId` has no identity left for another signal. -/
  | full
  /-- The change was recorded. -/
  | recorded
  /-- The change was not recorded. -/
  | rejected (why : Rejection)
  /-- The timescale was set. -/
  | timescaleSet
  deriving DecidableEq

/-- An `Answer`, and what was reported to the log on the way. -/
structure Outcome where
  answer : Answer
  notices : List Notice := []
  deriving DecidableEq

/-- A recorder without signals. The settings are those of the recording to come. -/
def new (settings : Settings) : Recorder :=
  { signals := #[], names := .empty, timescale? := none, settings := settings }

/-! ### Declaring signals -/

/-- Declares a signal under its `Signal.names`, of which it becomes the owner unless another
signal is. -/
def declare (r : Recorder) (name : String) (msi lsi : Int32) : Recorder × Outcome :=
  match SignalId.ofIndex? r.signals.size with
  | none => (r, { answer := .full })
  | some id =>
    let s : Signal := { name := name, msi := msi, lsi := lsi }
    let (names, taken) := r.names.registerAll id s.names
    ({ r with signals := r.signals.push s, names := names },
      { answer := .declared id, notices := taken.map fun (name, owner) => .nameTaken name owner })

/-! ### Recording changes -/

/-- What is wrong with the number of bits of a value for a signal, if anything. Only values with
`Value.width?` have one. -/
def widthMismatch? (s : Signal) (value : Value) : Option Rejection :=
  match value.width? with
  | none => none
  | some actual =>
    if actual = s.width ∨ value.isAbsent then none else some (.widthMismatch s.width actual)

/-- What is wrong with a change of a signal, if anything: `widthMismatch?`, or the objection of
its history. -/
def objection? (s : Signal) (c : Change) : Option Rejection :=
  match widthMismatch? s c.value with
  | some why => some why
  | none => (s.history.outOfOrder? c.time).map .outOfOrder

/-- Why a change of the signal with the given identity cannot be recorded, if there is a reason:
the signal is unknown, or there is an `objection?`. -/
def rejection? (r : Recorder) (id : SignalId) (c : Change) : Option Rejection :=
  match r.signals[id.index]? with
  | none => some (.unknownSignal id)
  | some s => objection? s c

/-- Adds a change to the history of a signal by `History.push`. A change that is out of order
leaves the signal as it is. -/
def extend (c : Change) (s : Signal) : Signal :=
  match s with
  | ⟨name, msi, lsi, history⟩ =>
    if ho : history.outOfOrder? c.time = none then
      ⟨name, msi, lsi, history.push c (History.accepts_of_outOfOrder? ho)⟩
    else ⟨name, msi, lsi, history⟩

/-- What is reported about a rejection: only an `outOfOrder` is worth a notice, which names the
signal. -/
def rejectionNotices (r : Recorder) (id : SignalId) : Rejection → List Notice
  | .outOfOrder why =>
    match r.signals[id.index]? with
    | none => []
    | some s => [.changeRejected s.name why]
  | _ => []

/-- Records a change, unless there is a `rejection?`. -/
def record (r : Recorder) (id : SignalId) (c : Change) : Recorder × Outcome :=
  match r.rejection? id c with
  | some why => (r, { answer := .rejected why, notices := r.rejectionNotices id why })
  | none => ({ r with signals := r.signals.modify id.index (extend c) }, { answer := .recorded })

/-! ### Calls -/

/-- Answers a call. -/
def perform (r : Recorder) : Call → Recorder × Outcome
  | .declare name msi lsi => r.declare name msi lsi
  | .record id change => r.record id change
  | .setTimescale timescale =>
    ({ r with timescale? := some timescale }, { answer := .timescaleSet })

/-- Answers calls one after the other by `perform`. -/
def run (r : Recorder) : List Call → Recorder × List Outcome
  | [] => (r, [])
  | call :: calls =>
    let (r', outcome) := r.perform call
    let (last, outcomes) := r'.run calls
    (last, outcome :: outcomes)

/-- Answers calls one after the other as `run` does, and stops at the first change that is
rejected. -/
def runStrict (r : Recorder) : List Call → Except Rejection Recorder
  | [] => .ok r
  | call :: calls =>
    match r.perform call with
    | (_, { answer := .rejected why, .. }) => .error why
    | (r', _) => r'.runStrict calls

/-! ### The finished recording -/

/-- The **recording** of everything that was accepted by `record`. -/
def finish (r : Recorder) : Recording :=
  { signals := r.signals
    names := r.names
    extent? := Extent.ofSignals? r.signals.toList
    timescale? := r.timescale?
    settings := r.settings }

/-- What is reported when a recording is complete. -/
def finishNotice (r : Recorder) : Notice :=
  .finished r.signals.size (Extent.ofSignals? r.signals.toList)

end Recorder

end Waveform
