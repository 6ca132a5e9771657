import Waveform.Proofs.Demo.Calls
import Waveform.Proofs.Extent
import Waveform.Proofs.Recorder.Naming
import Waveform.Proofs.Recording.Sampling

/-!
# The Testbench in Closed Form

None of the changes that make the testbench is rejected, so the recording has all that was
offered: a change of the clock at every tick, and one of the counter at every rising edge
(`Testbench.exists_clock`, `Testbench.exists_counter`).

The change in effect at a time is that of the last tick up to it, and what the signals are then
found to be follows from its time: `Testbench.clockReading` and `Testbench.counterReading`. The
main statement is `Testbench.record_closed_form`.
-/

namespace Waveform

namespace Testbench

open Recorder

variable {settings : Settings} {last time tick : Time} {id : SignalId}

/-! ### The recording -/

/-- The **recording** of the testbench: that of a `run`, which does not stop at rejections. -/
def recording (settings : Settings) (last : Time) : Recording :=
  ((new settings).run (calls start last)).1.finish

/-- Nothing stops `record`, so it ends with the `recording`. -/
theorem record_eq (settings : Settings) (last : Time) :
    record settings last = .ok (recording settings last) := by
  have hrun : (new settings).runStrict (calls start last) =
      .ok ((new settings).run (calls start last)).1 :=
    runStrict_eq_ok_iff.mpr ⟨(run_of_acceptable (acceptable_calls settings last)).1, rfl⟩
  rw [calls, runStrict_append] at hrun
  cases hopened : (new settings).runStrict opening with
  | error why =>
      rw [hopened] at hrun
      contradiction
  | ok opened =>
      have hcontinued : opened.runStrict (continuation start last) =
          .ok ((new settings).run (calls start last)).1 := by
        rw [hopened] at hrun
        exact hrun
      rw [record, hopened, parse_startText]
      simp only [Except.mapError, bind, Except.bind, hcontinued]
      rfl

/-- The recording has the signals that were declared, with the changes that were offered. -/
theorem exists_signal {s : Signal} (settings : Settings) (last : Time) (id : SignalId)
    (hs : declaredSignals[id.index]? = some s) :
    ∃ s', (recording settings last).signal? id = some s' ∧
      ExtendsBy s s' (changesOf id (calls start last)) := by
  rw [← signals_declarations settings last] at hs
  exact (run_of_acceptable (acceptable_calls settings last)).2 id s hs

/-- There are no other signals than `clock`, `counter` and `reset`. -/
theorem size_recording (settings : Settings) (last : Time) :
    (recording settings last).signals.size = 3 := by
  have houtline := congrArg (fun r => r.signals.size) (outline_run_new settings (calls start last))
  simp only [size_outline, signals_declarations] at houtline
  exact houtline

/-- Names are found as the declarations left them. -/
theorem lookup?_recording (settings : Settings) (last : Time) (name : String) :
    (recording settings last).lookup? name =
      ((new settings).run (Recorder.declarations declarations)).1.names.owner? name := by
  rw [← declarations_calls last, ← outline_run_new]
  rfl

/-- The clock is found by its name. -/
theorem lookup?_clock (settings : Settings) (last : Time) :
    (recording settings last).lookup? "tb.clk" = some clock :=
  lookup?_recording settings last _

/-- Queries are answered under the `Settings` of the recorder. -/
theorem engine_recording (settings : Settings) (last : Time) :
    (recording settings last).engine = ⟨settings⟩ :=
  congrArg Engine.mk (settings_run (new settings) (calls start last))

/-- The timescale is that of the calls. -/
theorem timescale?_recording (settings : Settings) (last : Time) :
    (recording settings last).timescale? = some ⟨1, .nanoseconds⟩ := by
  have hrun := timescale_run (new settings) (calls start last)
  rw [lastTimescale?_calls] at hrun
  exact hrun

/-- The **full names** of the signals, by `Signal.fullName` and in the order of their
declarations. -/
theorem fullNames_recording (settings : Settings) (last : Time) :
    (recording settings last).signals.toList.map Signal.fullName =
      ["tb.clk", "tb.cycle[7:0]", "tb.rst"] := by
  have houtline := congrArg (fun r => r.signals.toList.map Signal.fullName)
    (outline_run_new settings (calls start last))
  simp only [signals_declarations, outline, Array.toList_map, List.map_map] at houtline
  exact houtline

/-- The recording has the **clock**, with its `clockChange` at every tick. -/
theorem exists_clock (settings : Settings) (last : Time) :
    ∃ s, (recording settings last).signal? clock = some s ∧ s.width = 1 ∧
      s.history.toList = (ticks 0 5 last).map clockChange := by
  obtain ⟨s, hs, -, hmsi, hlsi, hlist⟩ := exists_signal settings last clock rfl
  rw [changesOf_clock] at hlist
  exact ⟨s, hs, by rw [Signal.width, hmsi, hlsi]; rfl, hlist⟩

/-- The recording has the **counter**, with its `counterStart` and a `counterChange` at every
rising edge. -/
theorem exists_counter (settings : Settings) (last : Time) :
    ∃ s, (recording settings last).signal? counter = some s ∧ s.width = counterWidth ∧
      s.rangeText = "[7:0]" ∧
      s.history.toList = counterStart :: (ticks 5 10 last).map counterChange := by
  obtain ⟨s, hs, -, hmsi, hlsi, hlist⟩ := exists_signal settings last counter rfl
  rw [changesOf_counter] at hlist
  exact ⟨s, hs, by rw [Signal.width, hmsi, hlsi]; rfl, by rw [Signal.rangeText, hmsi, hlsi]; rfl,
    hlist⟩

/-- The recording has the **reset**, with its two changes. -/
theorem exists_reset (settings : Settings) (last : Time) :
    ∃ s, (recording settings last).signal? reset = some s ∧
      s.history.toList = [⟨0, .scalar .one⟩, ⟨resetReleased, .scalar .zero⟩] := by
  obtain ⟨s, hs, -, -, -, hlist⟩ := exists_signal settings last reset rfl
  rw [changesOf_reset] at hlist
  exact ⟨s, hs, hlist⟩

theorem times_clock {s : Signal} (hlist : s.history.toList = (ticks 0 5 last).map clockChange) :
    s.history.times = ticks 0 5 last := by
  rw [History.times, hlist, List.map_map]
  exact List.map_id'' (fun _ => rfl) _

theorem times_counter {s : Signal}
    (hlist : s.history.toList = counterStart :: (ticks 5 10 last).map counterChange) :
    s.history.times = 0 :: ticks 5 10 last := by
  rw [History.times, hlist, List.map_cons, List.map_map]
  exact congrArg _ (List.map_id'' (fun _ => rfl) _)

/-- The rising edges are ticks. -/
theorem mem_ticks_of_rising (hmem : tick ∈ ticks 5 10 last) : tick ∈ ticks 0 5 last := by
  rw [← filter_isRising_ticks] at hmem
  exact (List.mem_filter.mp hmem).1

/-! ### The extent -/

/-- The times of the `recording` are the ticks and the times at which the reset changes. -/
theorem mem_timesOf_recording :
    time ∈ Extent.timesOf (recording settings last).signals.toList ↔
      time = 0 ∨ time = resetReleased ∨ time ∈ ticks 0 5 last := by
  obtain ⟨s₀, hs₀, -, hlist₀⟩ := exists_clock settings last
  obtain ⟨s₁, hs₁, -, -, hlist₁⟩ := exists_counter settings last
  obtain ⟨s₂, hs₂, hlist₂⟩ := exists_reset settings last
  have htimes₂ : s₂.history.times = [0, resetReleased] := by rw [History.times, hlist₂]; rfl
  rw [Extent.mem_timesOf_toList_iff (by rw [size_recording]; decide)]
  constructor
  · rintro ⟨id, s, hs, htime⟩
    have hlt : id.index < 3 := by
      rw [← size_recording settings last]
      exact (Array.getElem?_eq_some_iff.mp hs).1
    have hid : id = clock ∨ id = counter ∨ id = reset := by
      simp only [SignalId.eq_iff, clock, counter, reset]
      omega
    rcases hid with rfl | rfl | rfl
    · obtain rfl := Option.some.inj (hs₀.symm.trans hs)
      rw [times_clock hlist₀] at htime
      exact Or.inr (Or.inr htime)
    · obtain rfl := Option.some.inj (hs₁.symm.trans hs)
      rw [times_counter hlist₁, List.mem_cons] at htime
      exact htime.imp_right fun hmem => Or.inr (mem_ticks_of_rising hmem)
    · obtain rfl := Option.some.inj (hs₂.symm.trans hs)
      rw [htimes₂, List.mem_cons, List.mem_singleton] at htime
      exact htime.imp_right Or.inl
  · rintro (rfl | rfl | hmem)
    · exact ⟨reset, s₂, hs₂, htimes₂ ▸ List.mem_cons_self⟩
    · exact ⟨reset, s₂, hs₂, htimes₂ ▸ List.mem_cons_of_mem _ (List.mem_singleton_self _)⟩
    · exact ⟨clock, s₀, hs₀, (times_clock hlist₀).symm ▸ hmem⟩

/-- No time of the recording is negative. -/
theorem nonneg_of_mem_timesOf
    (htime : time ∈ Extent.timesOf (recording settings last).signals.toList) : 0 ≤ time := by
  rcases mem_timesOf_recording.mp htime with rfl | rfl | hmem
  · decide
  · decide
  · exact ((mem_ticks_iff (by decide)).mp hmem).1

/-- No time of the `recording` is later than the last tick and the release of the reset. -/
theorem le_of_mem_timesOf
    (htime : time ∈ Extent.timesOf (recording settings last).signals.toList) :
    time.toInt ≤ max 12 (5 * (last.toInt / 5)) := by
  have hreset : resetReleased.toInt = 12 := rfl
  rcases mem_timesOf_recording.mp htime with rfl | rfl | hmem
  · rw [Int64.toInt_zero]
    omega
  · omega
  · obtain ⟨-, hlast, hsteps⟩ := (mem_ticks_iff (by decide)).mp hmem
    rw [Int64.le_iff_toInt_le] at hlast
    rw [Int64.toInt_zero] at hsteps
    omega

/-- The later one of these two is a time of the recording. -/
theorem exists_mem_timesOf (settings : Settings) (last : Time) :
    ∃ stop ∈ Extent.timesOf (recording settings last).signals.toList,
      stop.toInt = max 12 (5 * (last.toInt / 5)) := by
  have hreset : resetReleased.toInt = 12 := rfl
  by_cases hearly : 5 * (last.toInt / 5) ≤ 12
  · exact ⟨resetReleased, mem_timesOf_recording.mpr (Or.inr (Or.inl rfl)), by omega⟩
  · have hnonneg : 0 ≤ last := by
      rw [Int64.le_iff_toInt_le, Int64.toInt_zero]
      omega
    obtain ⟨tick, htick, htime⟩ := exists_getLast?_ticks (by decide : 0 < 5) hnonneg
    rw [Int64.toInt_zero] at htime
    exact ⟨tick, mem_timesOf_recording.mpr (Or.inr (Or.inr (List.mem_of_getLast? htick))),
      by omega⟩

/-- **The extent** reaches from zero to the last tick, and at least to the release of the
reset. -/
theorem exists_extent (settings : Settings) (last : Time) :
    ∃ stop : Time, (recording settings last).extent? = some ⟨0, stop⟩ ∧
      stop.toInt = max 12 (5 * (last.toInt / 5)) := by
  obtain ⟨stop, hmem, hstop⟩ := exists_mem_timesOf settings last
  have hextent : (recording settings last).extent? =
      Extent.ofSignals? (recording settings last).signals.toList := by
    rw [recording, Recorder.finish]
  refine ⟨stop, hextent.trans (Extent.ofSignals?_eq_some_iff.mpr ?_), hstop⟩
  refine ⟨mem_timesOf_recording.mpr (Or.inl rfl), fun _ => nonneg_of_mem_timesOf, hmem,
    fun time htime => ?_⟩
  rw [Int64.le_iff_toInt_le, hstop]
  exact le_of_mem_timesOf htime

/-! ### Readings -/

/-- The **reading of the clock** in closed form. The testbench says nothing about times behind
`last`, and so they are like that one. -/
def clockReading (last time : Time) : Reading :=
  if time < 0 ∨ last < 0 then .unknown
  else if min time.toInt last.toInt / 5 % 2 = 1 then .scalar .one
  else .scalar .zero

/-- The reading of the counter before the first rising edge, which is a matter of policy. -/
def startReading : UnknownBits → Reading
  | .asZero => .vector 0
  | .propagate => .partiallyUnknown "xxxxxxxx"

/-- The **reading of the counter** in closed form: the `startReading`, and then the number of
clock cycles since the first rising edge. -/
def counterReading (policy : UnknownBits) (last time : Time) : Reading :=
  if time < 0 then .unknown
  else if min time.toInt last.toInt < 5 then startReading policy
  else .vector (UInt64.ofNat ((min time.toInt last.toInt - 5) / 10 % 256).toNat)

/-- The change of the clock in effect is that of the last tick, and its reading the
`clockReading`. -/
theorem decode_clock {s : Signal} (hwidth : s.width = 1)
    (hlist : s.history.toList = (ticks 0 5 last).map clockChange) (e : Engine) (time : Time) :
    e.decode s (lastUpTo? s.history.toList time) = clockReading last time := by
  have hscalar : s.isScalar = true := decide_eq_true hwidth
  have hmin := toInt_min last time
  rw [hlist, lastUpTo?_map_ticks (by decide) (fun _ => rfl), clockReading]
  simp only [Int64.lt_iff_toInt_lt, Int64.toInt_zero]
  by_cases hneg : time.toInt < 0 ∨ last.toInt < 0
  · have hnone : min last time < 0 := by
      rw [Int64.lt_iff_toInt_lt, Int64.toInt_zero, hmin]
      omega
    rw [if_pos hneg, ticks_of_lt hnone, List.getLast?_nil, Option.map_none, Engine.decode_none]
  · have hfrom : 0 ≤ min last time := by
      rw [Int64.le_iff_toInt_le, Int64.toInt_zero, hmin]
      omega
    obtain ⟨tick, htick, htime⟩ := exists_getLast?_ticks (by decide : 0 < 5) hfrom
    rw [Int64.toInt_zero] at htime
    have hrising : isRising tick = true ↔ min time.toInt last.toInt / 5 % 2 = 1 := by
      rw [isRising_iff (by omega)]
      omega
    rw [if_neg hneg, htick, Option.map_some, Engine.decode, hscalar]
    by_cases hodd : min time.toInt last.toInt / 5 % 2 = 1
    · rw [if_pos hodd, clockChange, if_pos (hrising.mpr hodd)]
      rfl
    · rw [if_neg hodd, clockChange, if_neg (mt hrising.mp hodd)]
      rfl

/-- The `counterStart` is decoded under the policy for unknown bits. -/
theorem decode_counterStart {s : Signal} (hwidth : s.width = counterWidth) (e : Engine) :
    e.decode s (some counterStart) = startReading e.settings.unknownBits := by
  have hvector : s.isScalar = false := by rw [Signal.isScalar, hwidth]; rfl
  rw [Engine.decode, hvector, hwidth]
  cases e.settings.unknownBits with
  | asZero => rfl
  | propagate => rfl

/-- A `counterChange` is decoded to the cycles up to it. -/
theorem decode_counterChange {s : Signal} (hwidth : s.width = counterWidth) (e : Engine)
    (hnonneg : 0 ≤ tick) :
    e.decode s (some (counterChange tick)) = .vector (UInt64.ofNat (cyclesUpTo tick % 2 ^ 8)) := by
  have hvector : s.isScalar = false := by rw [Signal.isScalar, hwidth]; rfl
  rw [Engine.decode, hvector, hwidth]
  exact Reading.ofVector_of_ofNat hnonneg rfl (by decide) (by decide)

/-- The change of the counter in effect is that of the last rising edge, or the `counterStart`,
and its reading the `counterReading`. -/
theorem decode_counter {s : Signal} (hwidth : s.width = counterWidth)
    (hlist : s.history.toList = counterStart :: (ticks 5 10 last).map counterChange) (e : Engine)
    (time : Time) :
    e.decode s (lastUpTo? s.history.toList time) =
      counterReading e.settings.unknownBits last time := by
  have hmin := toInt_min last time
  have hfive : (5 : Time).toInt = 5 := rfl
  rw [hlist, lastUpTo?_cons, lastUpTo?_map_ticks (by decide) (fun _ => rfl), counterReading]
  by_cases hearly : min last time < 5
  · -- no edge so far
    rw [ticks_of_lt hearly, List.getLast?_nil, Option.map_none, Option.none_or]
    rw [Int64.lt_iff_toInt_lt, hmin, hfive] at hearly
    by_cases hneg : time < 0
    · have hstart : ¬ counterStart.time ≤ time := Int64.not_le.mpr hneg
      rw [if_neg hstart, if_pos hneg, Engine.decode_none]
    · have hstart : counterStart.time ≤ time := Int64.not_lt.mp hneg
      rw [if_pos hstart, if_neg hneg, if_pos (by omega), decode_counterStart hwidth]
  · obtain ⟨tick, htick, htime⟩ :=
      exists_getLast?_ticks (by decide : 0 < 10) (Int64.not_lt.mp hearly)
    rw [Int64.lt_iff_toInt_lt, hmin, hfive] at hearly
    have hneg : ¬ time < 0 := by
      rw [Int64.lt_iff_toInt_lt, Int64.toInt_zero]
      omega
    have hnonneg : 0 ≤ tick := by
      rw [Int64.le_iff_toInt_le, Int64.toInt_zero]
      omega
    have hcycles : cyclesUpTo tick % 2 ^ 8 =
        ((min time.toInt last.toInt - 5) / 10 % 256).toNat := by
      rw [cyclesUpTo, halfPeriod]
      omega
    rw [htick, Option.map_some, Option.some_or, if_neg hneg, if_neg (by omega),
      decode_counterChange hwidth e hnonneg, hcycles]

/-- The number of **changes of the clock**, which has one at every tick. -/
theorem size_clock {s : Signal} (hlist : s.history.toList = (ticks 0 5 last).map clockChange) :
    (s.history.size : Int) = if last < 0 then 0 else last.toInt / 5 + 1 := by
  have hlength := length_ticks (by decide : 0 < 5) 0 last
  have hneg : last < 0 ↔ last.toInt < 0 := Int64.lt_iff_toInt_lt
  rw [Int64.toInt_zero] at hlength
  rw [← History.length_toList, hlist, List.length_map, hlength]
  simp only [hneg]
  split
  · omega
  · omega

/-- The number of **changes of the counter**, which has one at every rising edge and its start. -/
theorem size_counter {s : Signal}
    (hlist : s.history.toList = counterStart :: (ticks 5 10 last).map counterChange) :
    (s.history.size : Int) = if last < 0 then 1 else 1 + (last.toInt + 5) / 10 := by
  have hlength := length_ticks (by decide : 0 < 10) 5 last
  have hneg : last < 0 ↔ last.toInt < 0 := Int64.lt_iff_toInt_lt
  have hfive : (5 : Time).toInt = 5 := rfl
  rw [hfive] at hlength
  rw [← History.length_toList, hlist, List.length_cons, List.length_map, Int.natCast_add,
    hlength]
  simp only [hneg]
  split
  · omega
  · omega

/-- **The testbench in closed form.** Whatever the settings and the last time are, the testbench
is recorded: its `startText` is a bit string, none of its `calls` is rejected, and the recording
is that of these calls. The clock and the counter are found by their names. At every time their
readings are those of the closed forms: the clock is one in every other stretch of five units,
and the counter counts its rising edges modulo 256 from the second one on, while neither changes
behind the last time. The extent reaches from zero to the last tick or to the release of the
reset, and the numbers of changes of both signals are known from the last time alone. -/
theorem record_closed_form (settings : Settings) (last : Time) :
    ∃ r start, record settings last = .ok r ∧ Bit.parse startText = .ok start ∧
      r = ((Recorder.new settings).run (calls start last)).1.finish ∧
      (∀ exchange ∈ (Recorder.new settings).exchanges (calls start last),
        exchange.2.isRejected = false) ∧
      r.lookup? "tb.clk" = some clock ∧ r.lookup? "tb.cycle" = some counter ∧
      (∀ time, r.query? clock time = some (clockReading last time)) ∧
      (∀ time, r.query? counter time =
        some (counterReading settings.unknownBits last time)) ∧
      (∃ stop : Time, r.extent? = some ⟨0, stop⟩ ∧
        stop.toInt = max 12 (5 * (last.toInt / 5))) ∧
      (∃ s, r.signal? clock = some s ∧
        (s.history.size : Int) = if last < 0 then 0 else last.toInt / 5 + 1) ∧
      ∃ s, r.signal? counter = some s ∧
        (s.history.size : Int) = if last < 0 then 1 else 1 + (last.toInt + 5) / 10 := by
  obtain ⟨s₀, hs₀, hwidth₀, hlist₀⟩ := exists_clock settings last
  obtain ⟨s₁, hs₁, hwidth₁, -, hlist₁⟩ := exists_counter settings last
  refine ⟨recording settings last, start, record_eq settings last, parse_startText, rfl,
    (run_of_acceptable (acceptable_calls settings last)).1, lookup?_clock settings last,
    lookup?_recording settings last _, fun time => ?_, fun time => ?_,
    exists_extent settings last, ⟨s₀, hs₀, size_clock hlist₀⟩, ⟨s₁, hs₁, size_counter hlist₁⟩⟩
  · rw [Recording.query?_eq hs₀, decode_clock hwidth₀ hlist₀]
  · rw [Recording.query?_eq hs₁, decode_counter hwidth₁ hlist₁, engine_recording]

end Testbench

end Waveform
