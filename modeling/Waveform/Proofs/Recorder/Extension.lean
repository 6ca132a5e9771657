import Waveform.Proofs.Extent
import Waveform.Proofs.History.Extension
import Waveform.Proofs.Recorder.Naming
import Waveform.Proofs.Recording.Sampling

/-!
# Recording More Keeps the Past

A recorder can be asked for its recording at any point, and then go on. What the earlier
recording says is not taken back by the later one. Three laws of runs come together here,
each of them about more calls from a recorder as it is:

* a signal keeps its identity, its name and its range, and changes are only added to it
  (`Recorder.signal_run`);
* an owner of a name is never displaced (`Recorder.owner?_run`);
* no time is lost, so that the extent can only grow (`Recorder.extent?_run`).

A change that is added can be seen from the time of the last earlier change on, but not before
that, and this goes for the block in effect as well as for the reading. The main statement,
`Recorder.recording_more_keeps_the_past`, compares the two recordings.
-/

namespace Waveform

namespace Recorder

variable {r : Recorder} {id : SignalId} {s : Signal}

/-! ### No time is lost -/

/-- A recorded time is **still there** after more calls. -/
theorem mem_timesOf_run (hsize : r.signals.size < UInt32.size) {time : Time}
    (htime : time ∈ Extent.timesOf r.signals.toList) (calls : List Call) :
    time ∈ Extent.timesOf (r.run calls).1.signals.toList := by
  obtain ⟨id, s, hs, htime⟩ := (Extent.mem_timesOf_toList_iff hsize).mp htime
  obtain ⟨s', hs', hextends⟩ := signal_run hs calls
  refine (Extent.mem_timesOf_toList_iff (size_run_lt hsize calls)).mpr ⟨id, s', hs', ?_⟩
  rw [History.times, hextends.toList_eq, List.map_append]
  exact List.mem_append_left _ htime

/-- **The extent can only grow**: its `start` gets no later, and its `stop` no earlier. -/
theorem extent?_run (hsize : r.signals.size < UInt32.size) {e : Extent}
    (he : r.finish.extent? = some e) (calls : List Call) :
    ∃ e', (r.run calls).1.finish.extent? = some e' ∧ e'.start ≤ e.start ∧ e.stop ≤ e'.stop := by
  have hspans : e.Spans (Extent.timesOf r.signals.toList) := Extent.ofSignals?_eq_some_iff.mp he
  have hstart := mem_timesOf_run hsize hspans.start_mem calls
  have hstop := mem_timesOf_run hsize hspans.stop_mem calls
  obtain ⟨e', he'⟩ := Extent.exists_ofSignals? hstart
  have hspans' := Extent.ofSignals?_eq_some_iff.mp he'
  exact ⟨e', he', hspans'.start_le _ hstart, hspans'.le_stop _ hstop⟩

/-! ### Two recordings -/

/-- A signal says the same about every time **before its last change** after more calls. -/
theorem query?_run_of_lt {s' : Signal} {changes : List Change} {last time : Time}
    (hs : r.finish.signal? id = some s) (calls : List Call)
    (hs' : (r.run calls).1.finish.signal? id = some s') (hextends : ExtendsBy s s' changes)
    (hlast : s.history.lastTime? = some last) (htime : time < last) :
    s'.history.blockAt? time = s.history.blockAt? time ∧
      (r.run calls).1.finish.query? id time = r.finish.query? id time := by
  refine ⟨History.blockAt?_of_added hextends.toList_eq hlast htime, ?_⟩
  have hengine : (r.run calls).1.finish.engine = r.finish.engine :=
    congrArg Engine.mk (settings_run r calls)
  have hwidth : s'.width = s.width := by
    rw [Signal.width, hextends.msi_eq, hextends.lsi_eq, Signal.width]
  rw [Recording.query?_eq hs, Recording.query?_eq hs', hengine,
    History.lastUpTo?_of_added hextends.toList_eq hlast htime, Engine.decode, Engine.decode,
    Signal.isScalar, Signal.isScalar, hwidth]

/-- **Recording more keeps the past.** Compare the recording after some calls with the one after
more calls. Every signal is still there under its identity, with its name and its range, and its
history begins with the earlier one. At every time before the last change that it had, `blockAt?`
and `query?` answer what they did. Every name that `lookup?` found is found for the same signal.
If there was an extent, then there is one that contains it. -/
theorem recording_more_keeps_the_past (settings : Settings) (calls more : List Call) :
    let past := ((new settings).run calls).1.finish
    let present := ((new settings).run (calls ++ more)).1.finish
    (∀ id s, past.signal? id = some s →
      ∃ s', present.signal? id = some s' ∧ s'.name = s.name ∧ s'.msi = s.msi ∧ s'.lsi = s.lsi ∧
        s.history.toList <+: s'.history.toList ∧
        ∀ last, s.history.lastTime? = some last → ∀ time < last,
          s'.history.blockAt? time = s.history.blockAt? time ∧
            present.query? id time = past.query? id time) ∧
      (∀ name id, past.lookup? name = some id → present.lookup? name = some id) ∧
      ∀ extent, past.extent? = some extent →
        ∃ extent', present.extent? = some extent' ∧ extent'.start ≤ extent.start ∧
          extent.stop ≤ extent'.stop := by
  intro past present
  have hpresent : present = (((new settings).run calls).1.run more).1.finish :=
    congrArg (fun after => finish after.1) (run_append (new settings) calls more)
  rw [hpresent]
  refine ⟨fun id s hs => ?_, fun name id howner => owner?_run howner more, fun extent hextent => ?_⟩
  · have hid : ((new settings).run calls).1.signals[id.index]? = some s := hs
    obtain ⟨s', hs', hextends⟩ := signal_run hid more
    refine ⟨s', hs', hextends.name_eq, hextends.msi_eq, hextends.lsi_eq,
      ⟨_, hextends.toList_eq.symm⟩, fun last hlast time htime => ?_⟩
    exact query?_run_of_lt hs more hs' hextends hlast htime
  · exact extent?_run (size_run_new_lt settings calls) hextent more

/-- A bus whose last change is at time five, and then another change at that time and one
more signal of the same name. -/
theorem recording_more_keeps_the_past_bus :
    let bus : SignalId := ⟨0, by decide⟩
    let calls : List Call :=
      [.declare "bus" 1 0, .record bus ⟨0, .vector [.one, .zero]⟩,
        .record bus ⟨5, .vector [.one, .one]⟩]
    let more : List Call :=
      [.declare "bus" 0 0, .record bus ⟨5, .vector [.zero, .one]⟩, .record bus ⟨2, .vector []⟩]
    let past := ((new {}).run calls).1.finish
    let present := ((new {}).run (calls ++ more)).1.finish
    past.query? bus 4 = some (.vector 2) ∧ present.query? bus 4 = past.query? bus 4 ∧
      present.lookup? "bus" = some bus ∧
      ∃ extent, present.extent? = some extent ∧ extent.start ≤ 0 ∧ 5 ≤ extent.stop := by
  intro bus calls more past present
  obtain ⟨hsignals, hnames, hextent⟩ := recording_more_keeps_the_past {} calls more
  have hs : past.signal? bus = some ⟨"bus", 1, 0,
      ⟨#[⟨0, .vector [.one, .zero]⟩, ⟨5, .vector [.one, .one]⟩], 4, by decide, by decide⟩⟩ := rfl
  have hread : past.query? bus 4 = some (.vector 2) := by
    rw [Recording.query?_eq hs]
    decide
  obtain ⟨s', -, -, -, -, -, hpast⟩ := hsignals bus _ hs
  exact ⟨hread, (hpast 5 rfl 4 (by decide)).2, hnames "bus" bus (by decide),
    hextent ⟨0, 5⟩ (by decide)⟩

end Recorder

end Waveform
