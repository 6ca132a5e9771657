import Waveform.Proofs.Extent
import Waveform.Proofs.Recorder.Fitting
import Waveform.Proofs.Recorder.Outline

/-!
# The Extent of a Recording

A recording keeps its extent, which was found from the ends of its histories when it was
finished. Three other parts of the library look at the same times, and all of them agree with
the extent:

* the log of the run: the times of the signals are those of the changes that were accepted
  (`Recorder.mem_timesOf_run_iff`), so the extent spans these;
* the merge of all histories: it is in order, so its ends are the extremes of its times
  (`Extent.Spans.ends`);
* the lookup: nothing is known before the first time, and nothing changes after the last
  (`Recording.query?_of_lt_start`, `Recording.query?_of_stop_le`).

The main statement is `Recorder.extent_spans_accepted`.
-/

namespace Waveform

/-! ### Ends -/

/-- In a list in some order, the **extreme** comes first. -/
theorem Extreme.head?_eq {before : Time → Time → Prop} {times : List Time} {time : Time}
    (htime : Extreme before time times) (hrefl : ∀ t, before t t)
    (hantisymm : ∀ t u, before t u → before u t → t = u) (horder : times.Pairwise before) :
    times.head? = some time := by
  cases times with
  | nil => exact absurd htime.1 List.not_mem_nil
  | cons first rest =>
      have hfirst : Extreme before first (first :: rest) :=
        ⟨List.mem_cons_self,
          List.forall_mem_cons.mpr ⟨hrefl first, (List.pairwise_cons.mp horder).1⟩⟩
      rw [List.head?_cons, hfirst.unique hantisymm htime]

namespace Extent

variable {e : Extent} {times times' : List Time}

/-- Which times are spanned does not depend on their order, nor on how often they occur. -/
theorem Spans.of_mem_iff (hspans : e.Spans times) (hmem : ∀ time, time ∈ times ↔ time ∈ times') :
    e.Spans times' where
  start_mem := (hmem _).mp hspans.start_mem
  start_le time htime := hspans.start_le time ((hmem time).mpr htime)
  stop_mem := (hmem _).mp hspans.stop_mem
  le_stop time htime := hspans.le_stop time ((hmem time).mpr htime)

/-- Times in order **begin and end** with the extent that `Spans` them. -/
theorem Spans.ends (hspans : e.Spans times) (horder : times.Pairwise (· < ·)) :
    times.head? = some e.start ∧ times.getLast? = some e.stop := by
  have hle : times.Pairwise (· ≤ ·) := horder.imp Int64.le_of_lt
  have hstart : Extreme (· ≤ ·) e.start times := ⟨hspans.start_mem, hspans.start_le⟩
  have hstop : Extreme (· ≥ ·) e.stop times.reverse :=
    ⟨List.mem_reverse.mpr hspans.stop_mem,
      fun t ht => hspans.le_stop t (List.mem_reverse.mp ht)⟩
  refine ⟨hstart.head?_eq Int64.le_refl (fun _ _ => Int64.le_antisymm) hle, ?_⟩
  rw [← List.head?_reverse]
  exact hstop.head?_eq Int64.le_refl (fun _ _ => flip Int64.le_antisymm)
    (List.pairwise_reverse.mpr hle)

/-- There is no extent exactly where there are no times. -/
theorem ofSignals?_eq_none_iff {signals : List Signal} :
    ofSignals? signals = none ↔ timesOf signals = [] := by
  constructor
  · intro hnone
    refine List.eq_nil_iff_forall_not_mem.mpr fun time htime => ?_
    obtain ⟨e, he⟩ := exists_ofSignals? htime
    rw [hnone] at he
    exact absurd he (by simp)
  · intro hnil
    cases he : ofSignals? signals with
    | none => rfl
    | some e =>
        have hmem := (ofSignals?_eq_some_iff.mp he).start_mem
        rw [hnil] at hmem
        exact absurd hmem List.not_mem_nil

/-- `changeTimes` lists the times of all changes. -/
theorem mem_changeTimes_iff_mem_timesOf {signals : List Signal} {time : Time} :
    time ∈ changeTimes (signals.map Signal.history) ↔ time ∈ timesOf signals := by
  simp only [mem_changeTimes_iff_exists, mem_timesOf_iff, List.mem_map, exists_exists_and_eq_and]

/-- **The merge and the extent agree**: `changeTimes` begins and ends with
`Extent.ofSignals?`. -/
theorem ends_changeTimes (signals : List Signal) :
    (changeTimes (signals.map Signal.history)).head? = (ofSignals? signals).map start ∧
      (changeTimes (signals.map Signal.history)).getLast? = (ofSignals? signals).map stop := by
  cases he : ofSignals? signals with
  | none =>
      have hnil : changeTimes (signals.map Signal.history) = [] := by
        refine List.eq_nil_iff_forall_not_mem.mpr fun time htime => ?_
        rw [mem_changeTimes_iff_mem_timesOf, ofSignals?_eq_none_iff.mp he] at htime
        exact List.not_mem_nil htime
      rw [hnil]
      exact ⟨rfl, rfl⟩
  | some e =>
      have hspans : e.Spans (timesOf signals) := ofSignals?_eq_some_iff.mp he
      exact (hspans.of_mem_iff fun _ => mem_changeTimes_iff_mem_timesOf.symm).ends
        (pairwise_changeTimes _)

end Extent

/-! ### All signals -/

namespace Recording

variable {r : Recording}

/-- Signals that are found one by one are found together. -/
theorem signals?_of_map_eq {ids : List SignalId} {signals : List Signal}
    (hfound : ids.map r.signal? = signals.map some) : r.signals? ids = some signals := by
  induction ids generalizing signals with
  | nil =>
      obtain rfl : signals = [] := List.map_eq_nil_iff.mp hfound.symm
      rfl
  | cons id ids ih =>
      cases signals with
      | nil => simp at hfound
      | cons s rest =>
          rw [List.map_cons, List.map_cons, List.cons.injEq] at hfound
          rw [signals?, hfound.1, ih hfound.2]

/-- **All identities** of a recording stand for all of its signals. -/
theorem signals?_ids (hsize : r.size < UInt32.size) :
    r.signals? r.ids = some r.signals.toList := by
  have hid : ∀ i ∈ List.range r.size,
      (SignalId.ofIndex? i).map r.signal? = some r.signals.toList[i]? := by
    intro i hi
    have hlt : i + 1 < UInt32.size := by
      have := List.mem_range.mp hi
      omega
    rw [SignalId.ofIndex?, dif_pos hlt, Option.map_some, signal?, Array.getElem?_toList]
  refine signals?_of_map_eq ?_
  rw [ids, List.map_filterMap, List.filterMap_congr hid, List.filterMap_eq_map']
  refine List.ext_getElem (by simp [size]) fun i _ hi => ?_
  rw [List.getElem_map, List.getElem_map, List.getElem_range, List.getElem?_eq_getElem]

/-! ### Queries outside of the extent -/

variable {e : Extent} {id : SignalId} {s : Signal} {time : Time}

/-- The times of a signal are among `Extent.timesOf` all signals. -/
theorem mem_timesOf_of_signal? (hs : r.signal? id = some s) :
    ∀ u ∈ s.history.times, u ∈ Extent.timesOf r.signals.toList := fun _ hu =>
  Extent.mem_timesOf_iff.mpr ⟨s, Array.mem_toList_iff.mpr (Array.mem_of_getElem? hs), hu⟩

/-- **Before the start** nothing is known about a signal. -/
theorem query?_of_lt_start (hspans : e.Spans (Extent.timesOf r.signals.toList))
    (hs : r.signal? id = some s) (htime : time < e.start) :
    r.query? id time = some .unknown := by
  rw [query?, hs, Option.map_some, Engine.query_eq_unknown]
  intro u hu
  exact Int64.lt_of_lt_of_le htime (hspans.start_le u (mem_timesOf_of_signal? hs u hu))

/-- **From the stop on** the reading of a signal stays the same. -/
theorem query?_of_stop_le (hspans : e.Spans (Extent.timesOf r.signals.toList))
    (hs : r.signal? id = some s) (htime : e.stop ≤ time) :
    r.query? id time = r.query? id e.stop := by
  rw [query?, query?, hs, Option.map_some, Option.map_some, ← Engine.query_eq_of_quiet htime]
  rintro u hu ⟨hlt, -⟩
  exact Int64.not_lt.mpr (hspans.le_stop u (mem_timesOf_of_signal? hs u hu)) hlt

end Recording

/-! ### The times of a run -/

namespace Recorder

variable {r : Recorder} {id : SignalId} {c : Change}

/-- The times of **all changes that were accepted**, for whatever signal, in a log of
`exchanges`. -/
def acceptedTimes (log : List (Call × Answer)) : List Time :=
  log.filterMap fun
    | (.record _ c, .recorded) => some c.time
    | _ => none

theorem mem_acceptedTimes_iff {log : List (Call × Answer)} {time : Time} :
    time ∈ acceptedTimes log ↔
      ∃ id c, (Call.record id c, Answer.recorded) ∈ log ∧ c.time = time := by
  rw [acceptedTimes, List.mem_filterMap]
  constructor
  · rintro ⟨exchange, hmem, htime⟩
    split at htime
    · exact ⟨_, _, hmem, Option.some.inj htime⟩
    · simp at htime
  · rintro ⟨id, c, hmem, rfl⟩
    exact ⟨_, hmem, rfl⟩

/-- The accepted changes of a signal are those of its calls that were answered so. -/
theorem mem_accepted_iff {log : List (Call × Answer)} :
    c ∈ accepted id log ↔ (Call.record id c, Answer.recorded) ∈ log := by
  rw [accepted, List.mem_filterMap]
  constructor
  · rintro ⟨exchange, hmem, hchange⟩
    unfold acceptedChange? at hchange
    split at hchange
    · split at hchange
      · rename_i hid
        obtain rfl := Option.some.inj hchange
        exact hid ▸ hmem
      · simp at hchange
    · simp at hchange
  · intro hmem
    exact ⟨_, hmem, if_pos rfl⟩

/-- No change is accepted for a signal that is missing after a run. -/
theorem accepted_eq_nil {calls : List Call}
    (hs : (r.run calls).1.signals[id.index]? = none) : accepted id (r.exchanges calls) = [] := by
  induction calls generalizing r with
  | nil => rfl
  | cons call calls ih =>
      cases hsignal : r.signals[id.index]? with
      | some s =>
          obtain ⟨s', hs', -⟩ := signal_run hsignal (call :: calls)
          rw [hs] at hs'
          exact absurd hs' (by simp)
      | none =>
          have hrest : accepted id ((r.perform call).1.exchanges calls) = [] := ih hs
          rw [exchanges_cons, accepted_cons, (noSignal_perform hsignal call).1, hrest]
          rfl

/-- The **times of the signals** after a run are those of the changes that it accepted. -/
theorem mem_timesOf_run_iff (settings : Settings) (calls : List Call) (time : Time) :
    time ∈ Extent.timesOf ((new settings).run calls).1.signals.toList ↔
      time ∈ acceptedTimes ((new settings).exchanges calls) := by
  rw [Extent.mem_timesOf_toList_iff (size_run_new_lt settings calls), mem_acceptedTimes_iff]
  constructor
  · rintro ⟨id, s, hs, htime⟩
    obtain ⟨c, hc, rfl⟩ := List.mem_map.mp htime
    rw [toList_eq_accepted hs] at hc
    exact ⟨id, c, mem_accepted_iff.mp hc, rfl⟩
  · rintro ⟨id, c, hmem, rfl⟩
    have hc := mem_accepted_iff.mpr hmem
    cases hs : ((new settings).run calls).1.signals[id.index]? with
    | none => exact absurd hc (accepted_eq_nil hs ▸ List.not_mem_nil)
    | some s =>
        rw [← toList_eq_accepted hs] at hc
        exact ⟨id, s, hs, List.mem_map_of_mem hc⟩

/-! ### The finished recording -/

/-- **The extent of a recording is its true extent.** After any run there is none exactly when no
change was accepted. Otherwise it is the one extent for which `Extent.Spans` holds of the times
of all changes that were accepted, of all signals together. The `changeTimes?` of all signals
begin and end with it. Query any signal, under the settings of the run or any later ones. Before
the start nothing is known, and from the stop on the reading is the one at the stop. -/
theorem extent_spans_accepted (settings : Settings) (calls : List Call) :
    let recording := ((new settings).run calls).1.finish
    let times := acceptedTimes ((new settings).exchanges calls)
    (recording.extent? = none ↔ times = []) ∧
      (∀ extent, recording.extent? = some extent ↔ extent.Spans times) ∧
      (∃ changes, recording.changeTimes? recording.ids = some changes ∧
        changes.head? = recording.extent?.map Extent.start ∧
        changes.getLast? = recording.extent?.map Extent.stop) ∧
      ∀ extent, recording.extent? = some extent →
        ∀ (later : Settings) (id : SignalId), id.index < recording.size →
          (∀ time < extent.start,
              (recording.withSettings later).query? id time = some .unknown) ∧
            ∃ reading, (recording.withSettings later).query? id extent.stop = some reading ∧
              ∀ time, extent.stop ≤ time →
                (recording.withSettings later).query? id time = some reading := by
  intro recording times
  have hmem := mem_timesOf_run_iff settings calls
  have hspans : ∀ extent, recording.extent? = some extent ↔
      extent.Spans (Extent.timesOf recording.signals.toList) := fun _ =>
    Extent.ofSignals?_eq_some_iff
  have hsize : recording.size < UInt32.size := size_run_new_lt settings calls
  refine ⟨?_, fun extent => ?_, ?_, fun extent hextent later id hid => ?_⟩
  · refine Extent.ofSignals?_eq_none_iff.trans ?_
    rw [List.eq_nil_iff_forall_not_mem, List.eq_nil_iff_forall_not_mem]
    exact forall_congr' fun time => not_congr (hmem time)
  · rw [hspans]
    exact ⟨fun h => h.of_mem_iff hmem, fun h => h.of_mem_iff fun time => (hmem time).symm⟩
  · refine ⟨_, ?_, Extent.ends_changeTimes recording.signals.toList⟩
    rw [Recording.changeTimes?, Recording.signals?_ids hsize, Option.map_some]
  · have hs : (recording.withSettings later).signal? id = some recording.signals[id.index] :=
      Array.getElem?_eq_getElem hid
    have hquery : (recording.withSettings later).query? id extent.stop = some _ :=
      Recording.query?_eq hs extent.stop
    have hall : extent.Spans (Extent.timesOf (recording.withSettings later).signals.toList) :=
      (hspans extent).mp hextent
    exact ⟨fun time htime => Recording.query?_of_lt_start hall hs htime, _, hquery,
      fun time htime => (Recording.query?_of_stop_le hall hs htime).trans hquery⟩

/-- A clock and a bus: the bus has the first change and the clock the last one, and one more
change would be earlier than the first but is rejected. -/
theorem extent_spans_accepted_bus :
    let clock : SignalId := ⟨0, by decide⟩
    let bus : SignalId := ⟨1, by decide⟩
    let calls : List Call :=
      [.declare "clock" 0 0, .declare "bus" 1 0, .record bus ⟨-3, .vector [.one, .zero]⟩,
        .record clock ⟨4, .scalar .one⟩, .record bus ⟨-7, .vector []⟩,
        .record clock ⟨9, .scalar .zero⟩]
    let recording := ((new {}).run calls).1.finish
    let later : Settings := { unknownBits := .propagate }
    recording.extent? = some ⟨-3, 9⟩ ∧
      Extent.Spans ⟨-3, 9⟩ (acceptedTimes ((new {}).exchanges calls)) ∧
      (recording.withSettings later).query? clock (-4) = some .unknown ∧
      (recording.withSettings later).query? clock 20 =
        (recording.withSettings later).query? clock 9 := by
  intro clock bus calls recording later
  obtain ⟨-, hspans, -, hqueries⟩ := extent_spans_accepted {} calls
  have hextent : recording.extent? = some ⟨-3, 9⟩ := by decide
  obtain ⟨hbefore, reading, hstop, hafter⟩ := hqueries ⟨-3, 9⟩ hextent later clock (by decide)
  exact ⟨hextent, (hspans _).mp hextent, hbefore (-4) (by decide),
    (hafter 20 (by decide)).trans hstop.symm⟩

end Recorder

end Waveform
