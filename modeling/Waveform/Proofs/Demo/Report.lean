import Waveform.Demo.Report
import Waveform.Proofs.Demo.Arguments
import Waveform.Proofs.Demo.Testbench

/-!
# The Report in Closed Form

The testbench is known in closed form, and so is the whole report about it: the lines in front of
the table depend on the last time alone (`Demo.linesBefore`), and every row and every single
reading is written from the closed forms of the readings (`Demo.rowLine`, `Demo.readingLines`).
What is left to the arguments are the times of the rows (`Demo.runReport_eq_lines`).

The table has a row for every multiple of a step, or else one for every change. The first way
counts, and the second merges the histories of the recording. As the clock changes every five
units, both ways give the same rows for a step of five (`Demo.rowTimes_changes`), unless the last
time is negative: then there is a change of the counter, but no multiple.

The report looks at a recording through its queries, and these do not depend on whether several
of them may be answered concurrently (`Demo.report_withSettings`). So neither way of making the
table, nor that setting, can be seen in the output. The main statement is
`Demo.report_modes_agree`.
-/

namespace Waveform

/-! ### Settings in reports -/

/-- A reading depends on the `Settings` only through the policy for unknown bits. -/
theorem Engine.query_congr {e e' : Engine}
    (hpolicy : e.settings.unknownBits = e'.settings.unknownBits) (s : Signal) (time : Time) :
    e.query s time = e'.query s time := by
  rw [query, query, decode, decode, hpolicy]

/-- Other settings make another `recording` of the testbench only in its settings. -/
theorem Testbench.recording_withSettings (settings settings' : Settings) (last : Time) :
    (recording settings last).withSettings settings' = recording settings' last := by
  have hnew : (Recorder.new settings).withSettings settings' = Recorder.new settings' := rfl
  rw [recording, recording, ← hnew, Recorder.run_withSettings, Recorder.finish_withSettings]

namespace Demo

variable {a b : Arguments} {r : Recording} {clock counter : Signal} {last time : Time}
  {settings : Settings} {statistics : Bool}

/-- The **report** does not show the `Settings`, apart from the policy for unknown bits. -/
theorem report_withSettings {settings : Settings}
    (hpolicy : settings.unknownBits = r.settings.unknownBits) (a : Arguments) (statistics : Bool) :
    report a statistics (r.withSettings settings) = report a statistics r := by
  have hquery : (r.withSettings settings).engine.query = r.engine.query := by
    funext s time
    exact Engine.query_congr hpolicy s time
  have hrow : row (r.withSettings settings) = row r := by
    funext clock counter time
    rw [row, row, hquery]
  have hreading : reading (r.withSettings settings) = reading r := by
    funext clock counter time
    rw [reading, reading, hquery]
  have hdetails : details a statistics (r.withSettings settings) = details a statistics r := by
    funext clock counter
    rw [details, details, table, table, hrow, hreading]
    rfl
  rw [report, report, hdetails]
  rfl

/-- The report is about the `Testbench.recording` that the arguments ask for. -/
theorem runReport_eq (a : Arguments) (statistics : Bool) :
    runReport a statistics =
      report a statistics (Testbench.recording a.settings a.last) := by
  rw [runReport, Testbench.record_eq]

/-- **A single thread** gives the same `report`. -/
theorem runReport_singleThread (a : Arguments) (singleThread statistics : Bool) :
    runReport { a with singleThread := singleThread } statistics = runReport a statistics := by
  have hpolicy : Arguments.settings { a with singleThread := singleThread } =
      { a.settings with concurrent := !singleThread } := rfl
  have hsettings : (Testbench.recording a.settings a.last).settings = a.settings :=
    congrArg Engine.settings (Testbench.engine_recording a.settings a.last)
  rw [runReport_eq, runReport_eq, hpolicy, ← Testbench.recording_withSettings a.settings]
  exact report_withSettings (by rw [hsettings]) a statistics

/-! ### The signals of the report -/

/-- The two **signals of the report**, as they are in the `Testbench.recording`. -/
structure AreReported (settings : Settings) (last : Time) (clock counter : Signal) : Prop where
  found : reportedSignals? (Testbench.recording settings last) = some (clock, counter)
  clock_width : clock.width = 1
  clock_toList : clock.history.toList = (Testbench.ticks 0 5 last).map Testbench.clockChange
  counter_width : counter.width = Testbench.counterWidth
  counter_rangeText : counter.rangeText = "[7:0]"
  counter_toList : counter.history.toList =
    Testbench.counterStart :: (Testbench.ticks 5 10 last).map Testbench.counterChange

/-- The clock and the counter are found, and so the `report` is complete. -/
theorem exists_areReported (settings : Settings) (last : Time) :
    ∃ clock counter, AreReported settings last clock counter := by
  obtain ⟨clock, hclock, hwidth, hlist⟩ := Testbench.exists_clock settings last
  obtain ⟨counter, hcounter, hwidth', hrange, hlist'⟩ := Testbench.exists_counter settings last
  refine ⟨clock, counter, ?_, hwidth, hlist, hwidth', hrange, hlist'⟩
  have hfound := Testbench.lookup?_clock settings last
  have hfound' : (Testbench.recording settings last).lookup? "tb.cycle[7:0]" =
      some Testbench.counter := Testbench.lookup?_recording settings last _
  simp only [reportedSignals?, hfound, hfound', hclock, hcounter]

theorem report_of_reportedSignals? (hsignals : reportedSignals? r = some (clock, counter))
    (a : Arguments) (statistics : Bool) :
    report a statistics r =
      { code := 0
        lines := overview r ++ [""] ++ signalList r ++ [""] ++
          details a statistics r clock counter } := by
  simp only [report, hsignals]

namespace AreReported

variable {settings : Settings} (h : AreReported settings last clock counter)

include h

theorem times_clock : clock.history.times = Testbench.ticks 0 5 last :=
  Testbench.times_clock h.clock_toList

theorem times_counter : counter.history.times = 0 :: Testbench.ticks 5 10 last :=
  Testbench.times_counter h.counter_toList

/-- The clock is read as `Testbench.clockReading` says, whatever the engine. -/
theorem query_clock (e : Engine) (time : Time) :
    e.query clock time = Testbench.clockReading last time := by
  rw [Engine.query, History.inEffect?_eq_lastUpTo?]
  exact Testbench.decode_clock h.clock_width h.clock_toList e time

/-- The counter is read as `Testbench.counterReading` says, under the policy of the engine. -/
theorem query_counter (e : Engine) (time : Time) :
    e.query counter time = Testbench.counterReading e.settings.unknownBits last time := by
  rw [Engine.query, History.inEffect?_eq_lastUpTo?]
  exact Testbench.decode_counter h.counter_width h.counter_toList e time

end AreReported

/-! ### The lines -/

/-- The number of changes of the clock, as it is written. -/
def clockChanges (last : Time) : Int := if last < 0 then 0 else last.toInt / 5 + 1

/-- The number of changes of the counter, as it is written. -/
def counterChanges (last : Time) : Int := if last < 0 then 1 else 1 + (last.toInt + 5) / 10

/-- The time of the last change, as it is written. -/
def lastChange (last : Time) : Int := max 12 (5 * (last.toInt / 5))

/-- The lines **in front of the rows**. -/
def linesBefore (last : Time) : List String :=
  [s!"Time range: 0 to {lastChange last}",
    "Time scale: 1 ns (1e-9 s)",
    "",
    "Available signals:",
    "Total: 3 signals",
    "  [0] tb.clk",
    "  [1] tb.cycle[7:0]",
    "  [2] tb.rst",
    "",
    "Signal Info:",
    s!"  clk:   {clockChanges last} transitions",
    s!"  cycle: {counterChanges last} transitions, width=8 bits [7:0]",
    "",
    "Signal Values:",
    "Time | clk | cycle",
    "-----|-----|------"]

/-- The **row** for a time, with at least four places for the time: `clockReading` and
`counterReading`. -/
def rowLine (policy : UnknownBits) (last time : Time) : String :=
  let clockText := (Testbench.clockReading last time).text
  let counterText := (Testbench.counterReading policy last time).text
  Text.padLeft 4 (toString time.toInt) ++ s!" |  {clockText}  |  {counterText}"

/-- The lines for a **single reading**, of both signals as in `rowLine`. -/
def readingLines (policy : UnknownBits) (last time : Time) : List String :=
  let clockText := (Testbench.clockReading last time).text
  let counterText := (Testbench.counterReading policy last time).text
  [s!"At time {time.toInt}:", s!"  tb.clk = {clockText}", s!"  tb.cycle = {counterText}"]

/-- The extent and the timescale. -/
theorem overview_recording (settings : Settings) (last : Time) :
    overview (Testbench.recording settings last) =
      [s!"Time range: 0 to {lastChange last}", "Time scale: 1 ns (1e-9 s)"] := by
  obtain ⟨stop, hextent, hstop⟩ := Testbench.exists_extent settings last
  have hstart : "Time range: " ++ toString (0 : Time) ++ " to " = "Time range: 0 to " := by decide
  rw [overview, hextent, Testbench.timescale?_recording, lastChange, ← hstop]
  exact congrArg (fun range => [range ++ toString stop, _]) hstart

/-- The names of the three signals. -/
theorem signalList_recording (settings : Settings) (last : Time) :
    signalList (Testbench.recording settings last) =
      ["Available signals:", "Total: 3 signals", "  [0] tb.clk", "  [1] tb.cycle[7:0]",
        "  [2] tb.rst"] := by
  have hsize : (Testbench.recording settings last).size = 3 :=
    Testbench.size_recording settings last
  have hnames := Testbench.fullNames_recording settings last
  obtain ⟨s₀, rest₀, hlist, hname₀, hnames⟩ := List.map_eq_cons_iff.mp hnames
  obtain ⟨s₁, rest₁, rfl, hname₁, hnames⟩ := List.map_eq_cons_iff.mp hnames
  obtain ⟨s₂, rest₂, rfl, hname₂, hnames⟩ := List.map_eq_cons_iff.mp hnames
  obtain rfl := List.map_eq_nil_iff.mp hnames
  have htake : [s₀, s₁, s₂].take listedSignals = [s₀, s₁, s₂] := rfl
  rw [signalList, hsize, hlist, htake, signalLines, signalLines, signalLines, signalLines, hname₀,
    hname₁, hname₂]
  rfl

namespace AreReported

variable {settings : Settings} (h : AreReported settings last clock counter)

include h

/-- The facts about the clock and the counter. -/
theorem signalInfo_eq :
    signalInfo clock counter =
      ["Signal Info:",
        s!"  clk:   {clockChanges last} transitions",
        s!"  cycle: {counterChanges last} transitions, width=8 bits [7:0]"] := by
  have hwidth : " transitions, width=" ++ (toString 8 ++ (" bits " ++ "[7:0]")) =
      " transitions, width=8 bits [7:0]" := by decide
  have hcounter : ∀ size : String, "  cycle: " ++ size ++ " transitions, width=" ++ toString 8 ++
      " bits " ++ "[7:0]" = "  cycle: " ++ size ++ " transitions, width=8 bits [7:0]" := by
    intro size
    rw [← hwidth]
    simp only [String.append_assoc]
  rw [signalInfo, h.counter_rangeText, h.counter_width, clockChanges, counterChanges,
    ← Testbench.size_clock h.clock_toList, ← Testbench.size_counter h.counter_toList]
  exact congrArg (fun line => [_, _, line]) (hcounter (toString counter.history.size))

theorem row_eq :
    row (Testbench.recording settings last) clock counter =
      rowLine settings.unknownBits last := by
  have hengine := Testbench.engine_recording settings last
  funext time
  rw [row, h.query_clock, h.query_counter, hengine, rowLine]

theorem reading_eq :
    reading (Testbench.recording settings last) clock counter =
      readingLines settings.unknownBits last := by
  have hengine := Testbench.engine_recording settings last
  funext time
  rw [reading, h.query_clock, h.query_counter, hengine, readingLines]
  rfl

end AreReported

/-- The **report line by line**: `linesBefore`, the `rowLine`s, and the `readingLines`. -/
theorem runReport_eq_lines (h : AreReported a.settings a.last clock counter)
    (statistics : Bool) :
    runReport a statistics =
      { code := 0
        lines := linesBefore a.last ++
          (rowTimes a clock counter).map (rowLine a.settings.unknownBits a.last) ++ [""] ++
          a.readings.flatMap (readingLines a.settings.unknownBits a.last) ++
          if statistics then (Testbench.recording a.settings a.last).statistics else [] } := by
  rw [runReport_eq, report_of_reportedSignals? h.found, overview_recording, signalList_recording,
    details, table, h.signalInfo_eq, h.row_eq, h.reading_eq, linesBefore]
  simp only [List.append_assoc, List.cons_append, List.nil_append]

/-! ### The rows -/

/-- Without `changes`, the rows are at the **multiples of the step**. -/
theorem getElem?_rowTimes_step (ha : a.changes = false) {index : Nat} :
    (rowTimes a clock counter)[index]? = some time ↔
      time.toInt = index * (max a.step 1 : Nat) ∧ time ≤ a.last := by
  rw [rowTimes, ha, if_neg Bool.false_ne_true, Testbench.multiples_eq_ticks,
    Testbench.getElem?_ticks (by omega), Int64.toInt_zero, Int.zero_add]

/-- The changes are at the ticks of the clock, and there is one at zero in any case. -/
theorem mem_changeTimes_iff (h : AreReported settings last clock counter) :
    time ∈ changeTimes [clock.history, counter.history] ↔
      time = 0 ∨ time ∈ Testbench.ticks 0 5 last := by
  simp only [mem_changeTimes_iff_exists, List.mem_cons, List.not_mem_nil, or_false,
    exists_eq_or_imp, exists_eq_left, h.times_clock, h.times_counter]
  constructor
  · rintro (htick | hzero | hrising)
    · exact Or.inr htick
    · exact Or.inl hzero
    · exact Or.inr (Testbench.mem_ticks_of_rising hrising)
  · rintro (hzero | htick)
    · exact Or.inr (Or.inl hzero)
    · exact Or.inl htick

/-- With `changes`, the rows are at the **ticks of the clock**. If there is none of these, the
row for the start of the counter is left. -/
theorem rowTimes_changes (ha : a.changes = true)
    (h : AreReported settings last clock counter) :
    rowTimes a clock counter = if last < 0 then [0] else Testbench.ticks 0 5 last := by
  rw [rowTimes, if_pos ha]
  by_cases hneg : last < 0
  · rw [if_pos hneg]
    refine ChangeTimes.eq_of_mem_iff (pairwise_changeTimes _) (List.pairwise_singleton _ _)
      fun time => ?_
    rw [mem_changeTimes_iff h, Testbench.ticks_of_lt hneg, List.mem_singleton]
    exact or_iff_left List.not_mem_nil
  · rw [if_neg hneg]
    refine ChangeTimes.eq_of_mem_iff (pairwise_changeTimes _)
      (Testbench.pairwise_ticks (by decide) 0 last) fun time => ?_
    rw [mem_changeTimes_iff h]
    refine or_iff_right_of_imp ?_
    rintro rfl
    exact (Testbench.mem_ticks_iff (by decide)).mpr
      ⟨Int64.le_refl 0, Int64.not_lt.mp hneg, by omega⟩

/-! ### The whole output -/

/-- Arguments with the same `rowTimes` and the same single readings have the same report. -/
theorem report_congr (hsignals : reportedSignals? r = some (clock, counter))
    (hrows : rowTimes a clock counter = rowTimes b clock counter)
    (hreadings : a.readings = b.readings) (statistics : Bool) :
    report a statistics r = report b statistics r := by
  rw [report_of_reportedSignals? hsignals, report_of_reportedSignals? hsignals, details, details,
    table, table, hrows, hreadings]

/-- **Both ways of making the table**, with `changes` and with a step of five, give the same
report, if the last time is not negative. -/
theorem runReport_changes (hlast : 0 ≤ a.last) (statistics : Bool) :
    runReport { a with changes := true } statistics =
      runReport { a with changes := false, step := 5 } statistics := by
  obtain ⟨clock, counter, h⟩ := exists_areReported a.settings a.last
  have hrows : rowTimes { a with changes := true } clock counter =
      rowTimes { a with changes := false, step := 5 } clock counter := by
    rw [rowTimes_changes rfl h, if_neg (Int64.not_lt.mpr hlast)]
    rfl
  rw [runReport_eq, runReport_eq]
  exact report_congr h.found hrows rfl statistics

/-- Arguments that `Arguments.parse` accepts make the program write the report. -/
theorem run_of_parse {arguments : List String} (hparse : Arguments.parse arguments = .report a)
    (filter? : Option String) :
    run arguments filter? = runReport a (wantsStatistics filter?) := by
  rw [run, hparse]

/-- **The modes of the report agree.** The testbench is always recorded, and the report about it
is complete: in front of the table and behind it there are the lines that `linesBefore` and
`readingLines` spell out, and the statistics if they are wanted, and the rows in between are
`rowLine` at the times of the rows. Without changes, these are the multiples of the step, a step
of zero counting as one, up to the last time, in increasing order. With changes, they are the
multiples of five up to the last time, or the single time zero if the last time is negative. So
if it is not, the whole output with changes is that with a step of five. A single thread never
makes a difference to the output.

On the command line, arguments that are in order have this report as their output. Both flags
can be put in front of other arguments that do not have them. -/
theorem report_modes_agree (a : Arguments) (statistics : Bool) :
    (∃ r clock counter, Testbench.record a.settings a.last = .ok r ∧
      reportedSignals? r = some (clock, counter) ∧
      (let policy := if a.propagateUnknown then UnknownBits.propagate else .asZero
      runReport a statistics =
        { code := 0
          lines := linesBefore a.last ++
            (rowTimes a clock counter).map (rowLine policy a.last) ++ [""] ++
            a.readings.flatMap (readingLines policy a.last) ++
            if statistics then r.statistics else [] }) ∧
      (a.changes = false → ∀ (index : Nat) (time : Time),
        (rowTimes a clock counter)[index]? = some time ↔
          time.toInt = index * (max a.step 1 : Nat) ∧ time ≤ a.last) ∧
      (a.changes = true → 0 ≤ a.last → ∀ (index : Nat) (time : Time),
        (rowTimes a clock counter)[index]? = some time ↔
          time.toInt = index * 5 ∧ time ≤ a.last) ∧
      (a.changes = true → a.last < 0 → rowTimes a clock counter = [0])) ∧
    (0 ≤ a.last → runReport { a with changes := true } statistics =
      runReport { a with changes := false, step := 5 } statistics) ∧
    (∀ singleThread, runReport { a with singleThread := singleThread } statistics =
      runReport a statistics) ∧
    ∀ arguments filter?, Arguments.parse arguments = .report a →
      run arguments filter? = runReport a (wantsStatistics filter?) ∧
      (a.changes = false → a.step = 5 → 0 ≤ a.last →
        run ("--changes" :: arguments) filter? = run arguments filter?) ∧
      (a.singleThread = false →
        run ("--single-thread" :: arguments) filter? = run arguments filter?) := by
  refine ⟨?_, fun hlast => runReport_changes hlast statistics,
    fun singleThread => runReport_singleThread a singleThread statistics,
    fun arguments filter? hparse => ⟨run_of_parse hparse filter?, fun hchanges hstep hlast => ?_,
      fun hthreads => ?_⟩⟩
  · obtain ⟨clock, counter, h⟩ := exists_areReported a.settings a.last
    refine ⟨_, clock, counter, Testbench.record_eq a.settings a.last, h.found,
      runReport_eq_lines h statistics, ?_, ?_, ?_⟩
    · intro hchanges index time
      exact getElem?_rowTimes_step hchanges
    · intro hchanges hlast index time
      rw [rowTimes_changes hchanges h, if_neg (Int64.not_lt.mpr hlast),
        Testbench.getElem?_ticks (by decide), Int64.toInt_zero, Int.zero_add]
      rfl
    · intro hchanges hneg
      rw [rowTimes_changes hchanges h, if_pos hneg]
  · have hname : Arguments.front "--changes" = .flag .changes := rfl
    have hsame : ({ a with changes := false, step := 5 } : Arguments) = a := by
      rw [← hchanges, ← hstep]
    have hreport := runReport_changes hlast (wantsStatistics filter?)
    rw [hsame] at hreport
    rw [run_of_parse hparse, run_of_parse (Arguments.parse_flag_cons hname hparse hchanges)]
    exact hreport
  · have hname : Arguments.front "--single-thread" = .flag .singleThread := rfl
    rw [run_of_parse hparse, run_of_parse (Arguments.parse_flag_cons hname hparse hthreads)]
    exact runReport_singleThread a true (wantsStatistics filter?)

/-- The usual arguments, for which rows are five units apart and the last time is 30. -/
theorem report_modes_agree_usual :
    (0 : Time) ≤ 30 ∧ Arguments.parse [] = .report {} ∧
      run ["--changes"] none = run [] none ∧ run ["--single-thread"] none = run [] none ∧
      run [] none =
        { code := 0
          lines :=
            ["Time range: 0 to 30", "Time scale: 1 ns (1e-9 s)", "", "Available signals:",
              "Total: 3 signals", "  [0] tb.clk", "  [1] tb.cycle[7:0]", "  [2] tb.rst", "",
              "Signal Info:", "  clk:   7 transitions",
              "  cycle: 4 transitions, width=8 bits [7:0]", "", "Signal Values:",
              "Time | clk | cycle", "-----|-----|------", "   0 |  0  |  0", "   5 |  1  |  0",
              "  10 |  0  |  0", "  15 |  1  |  1", "  20 |  0  |  1", "  25 |  1  |  2",
              "  30 |  0  |  2", "", "At time 7:", "  tb.clk = 1", "  tb.cycle = 0",
              "At time 20:", "  tb.clk = 0", "  tb.cycle = 1"] } := by
  obtain ⟨⟨r, clock, counter, -, -, hlines, hsteps, -⟩, -, -, hflags⟩ :=
    report_modes_agree {} false
  obtain ⟨hrun, hchanges, hthreads⟩ := hflags [] none rfl
  have hplaces : ∀ (index : Nat) (time : Time), (rowTimes {} clock counter)[index]? = some time ↔
      time.toInt = index * 5 ∧ time ≤ 30 := hsteps rfl
  have htimes : rowTimes {} clock counter =
      (List.range 7).map fun index : Nat => Int64.ofInt (index * 5) := by
    refine List.ext_getElem? fun index => Option.ext fun time => ?_
    have hlast : Int64.toInt 30 = 30 := rfl
    rw [hplaces, List.getElem?_map, Int64.le_iff_toInt_le, hlast]
    by_cases hlt : index < 7
    · have hplace : (Int64.ofInt (index * 5)).toInt = index * 5 :=
        Int64.toInt_ofInt_of_le (by omega) (by omega)
      rw [List.getElem?_range hlt, Option.map_some, Option.some.injEq, ← Int64.toInt_inj, hplace]
      omega
    · rw [List.getElem?_eq_none (by simpa using hlt), Option.map_none]
      simp only [reduceCtorEq, iff_false]
      omega
  refine ⟨by decide, rfl, hchanges rfl rfl (by decide), hthreads rfl, ?_⟩
  have hstatistics : wantsStatistics none = false := by decide
  rw [hrun, hstatistics, hlines, htimes]
  rfl

end Demo

end Waveform
