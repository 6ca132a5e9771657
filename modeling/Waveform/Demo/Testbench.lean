import Waveform.Recorder

/-!
# A Testbench

A small recording to look at: a clock, a counter of its cycles, and a reset. The clock
changes every five units of time, from zero at time zero on. The reset is released at
time twelve. While it is held, a rising edge sets the counter to zero, and after that
every rising edge counts. Before the first edge the counter is unknown.

The recording is given as the calls that make it, `Testbench.calls`. The start of the counter
among them is read from a text, and `Testbench.record` stops when that is no bit string, just as
it stops at a change that is rejected.
-/

namespace Waveform.Testbench

/-! ### Times -/

/-- The time that is later by some units, unless it is beyond `Int64.maxValue`. -/
def later? (time : Time) (units : Nat) : Option Time :=
  let sum := time.toInt + units
  if sum ≤ Int64.maxValue.toInt then some (Int64.ofInt sum) else none

theorem toInt_later {time later : Time} {units : Nat} (hlater : later? time units = some later) :
    later.toInt = time.toInt + units := by
  simp only [later?, Option.ite_none_right_eq_some, Option.some.injEq] at hlater
  obtain ⟨hle, rfl⟩ := hlater
  have hmin := time.le_toInt
  have hmax : Int64.maxValue.toInt = 2 ^ 63 - 1 := by decide
  exact Int64.toInt_ofInt_of_le (by omega) (by omega)

/-- Adds to some times all those from `next` to a last one that are `skipped + 1` units apart.
There is none behind a time that has no other so much later. -/
def ticksFrom (skipped : Nat) (last next : Time) (times : Array Time) : Array Time :=
  if last < next then times
  else
    match _h : later? next (skipped + 1) with
    | none => times.push next
    | some later => ticksFrom skipped last later (times.push next)
termination_by (last.toInt + 1 - next.toInt).toNat
decreasing_by
  rename_i hle
  rw [Int64.lt_iff_toInt_lt] at hle
  have hlater := toInt_later _h
  omega

/-- The multiples of a step from zero to a last time, in increasing order, by `ticksFrom`. There
are none if the last time is negative. A step of zero counts as a step of one. -/
def multiples (step : Nat) (last : Time) : List Time := (ticksFrom (step - 1) last 0 #[]).toList

/-- Half the period of the clock. -/
def halfPeriod : Nat := 5

/-- The time at which the reset is released. -/
def resetReleased : Time := 12

/-- The clock rises at this time of change: it is an odd multiple of `halfPeriod`. -/
def isRising (time : Time) : Bool := (time.toInt.toNat / halfPeriod) % 2 = 1

/-! ### Signals -/

/-- The clock, which is declared first. -/
def clock : SignalId := ⟨0, by decide⟩

/-- The counter of clock cycles, which is declared second. -/
def counter : SignalId := ⟨1, by decide⟩

/-- The reset, which is declared last. -/
def reset : SignalId := ⟨2, by decide⟩

/-- The number of bits of the counter. -/
def counterWidth : Nat := 8

/-- The declarations of `clock`, `counter` and `reset`, and the timescale before them. -/
def declarations : List Recorder.Call :=
  [.setTimescale ⟨1, .nanoseconds⟩,
    .declare "tb.clk" 0 0,
    .declare "tb.cycle" 7 0,
    .declare "tb.rst" 0 0]

/-- What comes first: the `declarations`, and the changes of the reset. -/
def opening : List Recorder.Call :=
  declarations ++
    [.record reset ⟨0, .scalar .one⟩,
      .record reset ⟨resetReleased, .scalar .zero⟩]

/-- The text of the counter's first value. -/
def startText : String := "xxxxxxxx"

/-- The counter's next value at a rising edge: zero until `resetReleased`. -/
def countAfter (time : Time) (count : Nat) : Nat := if resetReleased < time then count + 1 else 0

/-- The changes at the given times of the clock, when the counter has reached `count`. -/
def edges (count : Nat) : List Time → List Recorder.Call
  | [] => []
  | time :: times =>
    if isRising time then
      let next := countAfter time count
      .record clock ⟨time, .scalar .one⟩ ::
        .record counter ⟨time, .ofNat next counterWidth⟩ :: edges next times
    else .record clock ⟨time, .scalar .zero⟩ :: edges count times

/-- What comes then: the counter's first value, and the `edges` up to a last time. -/
def continuation (start : List Bit) (last : Time) : List Recorder.Call :=
  .record counter ⟨0, .vector start⟩ :: edges 0 (multiples halfPeriod last)

/-- The **calls** that record the testbench up to a last time, with the bits of the counter's
first value: `opening` and `continuation`. -/
def calls (start : List Bit) (last : Time) : List Recorder.Call :=
  opening ++ continuation start last

/-- Why `record` cannot record the testbench. -/
inductive Failure where
  /-- The `startText` is no bit string. -/
  | badStart (why : BitError)
  /-- A change is rejected, and `Recorder.runStrict` stops. -/
  | rejected (why : Rejection)
  deriving DecidableEq

/-- **Records the testbench**, unless there is a `Failure`. -/
def record (settings : Settings) (last : Time) : Except Failure Recording := do
  let opened ← ((Recorder.new settings).runStrict opening).mapError Failure.rejected
  let start ← (Bit.parse startText).mapError Failure.badStart
  let recorder ← (opened.runStrict (continuation start last)).mapError Failure.rejected
  return recorder.finish

end Waveform.Testbench
