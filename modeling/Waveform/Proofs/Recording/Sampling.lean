import Mathlib.Data.Finset.Max
import Waveform.Proofs.ChangeTimes
import Waveform.Proofs.History.Lookup
import Waveform.Recorder

/-!
# Sampling at the Times of Change

Between two changes nothing can be seen to happen. This module proves it across the two
parts of the library that have to agree on it: the merge that lists the times of change of
several signals, and the bisection that finds the change in effect of each one of them.

A stretch of time, without its first instant and with its last, is **quiet** when none of
some times lies in it (`QuietBetween`). Quiet stretches are followed upwards:

* `History.inEffect?_eq_of_quiet`: the change in effect stays the same over a stretch that
  is quiet for the history;
* `Engine.query_eq_of_quiet`: so does the reading of a signal;
* `Recording.queryMany?_eq_of_quiet`: and so do the readings of several signals over a
  stretch that is quiet for their times of change.

The main statement, `Recording.changeTimes_determine_readings`, is that the readings at the
times of change determine those at all other times.
-/

namespace Waveform

/-! ### Quiet stretches -/

/-- **Quiet** after `start` up to `stop`: none of the times lies in between. The first
instant does not count, and the last one does. -/
def QuietBetween (times : List Time) (start stop : Time) : Prop :=
  ∀ time ∈ times, ¬ (start < time ∧ time ≤ stop)

/-- Over a quiet stretch a time is up to the end exactly when it is up to the start. -/
theorem QuietBetween.le_iff {times : List Time} {start stop : Time}
    (hquiet : QuietBetween times start stop) (hle : start ≤ stop) {time : Time}
    (htime : time ∈ times) : time ≤ start ↔ time ≤ stop := by
  constructor
  · intro hstart
    exact Int64.le_trans hstart hle
  · intro hstop
    refine Int64.not_lt.mp fun hlt => ?_
    exact hquiet time htime ⟨hlt, hstop⟩

/-- Of some times, those up to a given one have a **greatest**, unless there are none. -/
theorem exists_greatest_upTo {times : List Time} {time u : Time} (hu : u ∈ times)
    (hle : u ≤ time) :
    ∃ v ∈ times, v ≤ time ∧ ∀ w ∈ times, w ≤ time → w ≤ v := by
  obtain ⟨v, hv, hgreatest⟩ :=
    (times.toFinset.filter (· ≤ time)).exists_max_image Int64.toInt ⟨u, by simp [hu, hle]⟩
  simp only [Finset.mem_filter, List.mem_toFinset, and_imp] at hv hgreatest
  exact ⟨v, hv.1, hv.2, fun w hw hwle => Int64.le_iff_toInt_le.mpr (hgreatest w hw hwle)⟩

/-- After the greatest time up to a given one, it is `QuietBetween` that one and the given
one. -/
theorem quietBetween_of_greatest {times : List Time} {time v : Time}
    (hgreatest : ∀ w ∈ times, w ≤ time → w ≤ v) : QuietBetween times v time := by
  rintro w hw ⟨hlt, hle⟩
  exact absurd hlt (Int64.not_lt.mpr (hgreatest w hw hle))

/-! ### One signal -/

namespace History

variable {h : History} {start stop time : Time}

/-- Over a quiet stretch the same change stays **in effect**, as `inEffect?` says. -/
theorem inEffect?_eq_of_quiet (hle : start ≤ stop) (hquiet : QuietBetween h.times start stop) :
    h.inEffect? start = h.inEffect? stop := by
  have hsame : h.toList.filter (fun c => c.time ≤ start) =
      h.toList.filter (fun c => c.time ≤ stop) := by
    refine List.filter_congr fun c hc => ?_
    exact decide_eq_decide.mpr (hquiet.le_iff hle (List.mem_map_of_mem hc))
  rw [inEffect?_eq_lastUpTo?, inEffect?_eq_lastUpTo?, lastUpTo?, lastUpTo?, hsame]

/-- Before the first change no change is in effect. -/
theorem inEffect?_eq_none (hbefore : ∀ u ∈ h.times, time < u) : h.inEffect? time = none := by
  have hnone : h.indexAt? time = none := by
    rw [indexAt?_eq_none_iff]
    exact fun c hc => hbefore c.time (List.mem_map_of_mem hc)
  rw [inEffect?, hnone]

end History

namespace Engine

variable {e : Engine} {s : Signal} {start stop time : Time}

/-- Where no change is in effect, `decode` knows nothing: both decoders say so. -/
theorem decode_none (e : Engine) (s : Signal) : e.decode s none = .unknown := by
  rw [decode]
  split
  · rfl
  · rfl

/-- Over a quiet stretch the **reading** of a signal by `query` stays the same. -/
theorem query_eq_of_quiet (hle : start ≤ stop)
    (hquiet : QuietBetween s.history.times start stop) : e.query s start = e.query s stop := by
  rw [query, query, History.inEffect?_eq_of_quiet hle hquiet]

/-- Before its first change nothing is known about a signal. -/
theorem query_eq_unknown (hbefore : ∀ u ∈ s.history.times, time < u) :
    e.query s time = .unknown := by
  rw [query, History.inEffect?_eq_none hbefore, decode_none]

end Engine

/-! ### Several signals -/

namespace Recording

variable {r : Recording} {ids : List SignalId} {signals : List Signal}
  {start stop time : Time}

/-- `query?` decodes the **last change up to the time** in the history of the signal. -/
theorem query?_eq {id : SignalId} {s : Signal} (hs : r.signal? id = some s) (time : Time) :
    r.query? id time = some (r.engine.decode s (lastUpTo? s.history.toList time)) := by
  rw [query?, hs, Option.map_some, Engine.query, History.inEffect?_eq_lastUpTo?]

/-- The signals of a recording are found by their identities. -/
theorem exists_signals? (hids : ∀ id ∈ ids, id.index < r.size) :
    ∃ signals, r.signals? ids = some signals ∧ signals.length = ids.length := by
  induction ids with
  | nil => exact ⟨[], rfl, rfl⟩
  | cons id ids ih =>
      obtain ⟨rest, hrest, hlength⟩ :=
        ih fun other hother => hids other (List.mem_cons_of_mem _ hother)
      have hlt : id.index < r.signals.size := hids id List.mem_cons_self
      have hid : r.signal? id = some r.signals[id.index] := Array.getElem?_eq_getElem hlt
      refine ⟨_ :: rest, by rw [signals?, hid, hrest], ?_⟩
      rw [List.length_cons, List.length_cons, hlength]

/-- The times of each signal are among the times of change of all of them. -/
theorem mem_changeTimes_of_mem {s : Signal} (hs : s ∈ signals) {u : Time}
    (hu : u ∈ s.history.times) : u ∈ changeTimes (signals.map Signal.history) := by
  exact mem_changeTimes_iff_exists.mpr ⟨s.history, List.mem_map_of_mem hs, hu⟩

/-- Over a stretch that is quiet for the times of change the **readings** stay the same. -/
theorem queryMany?_eq_of_quiet (hsignals : r.signals? ids = some signals) (hle : start ≤ stop)
    (hquiet : QuietBetween (changeTimes (signals.map Signal.history)) start stop) :
    r.queryMany? ids start = r.queryMany? ids stop := by
  have hsame : ∀ s ∈ signals, r.engine.query s start = r.engine.query s stop :=
    fun s hs => Engine.query_eq_of_quiet hle fun u hu => hquiet u (mem_changeTimes_of_mem hs hu)
  rw [queryMany?, queryMany?, hsignals, Option.map_some, Option.map_some,
    List.map_congr_left hsame]

/-- Before the first of the times of change nothing is known. -/
theorem queryMany?_eq_unknown (hsignals : r.signals? ids = some signals)
    (hbefore : ∀ u ∈ changeTimes (signals.map Signal.history), time < u) :
    r.queryMany? ids time = some (List.replicate signals.length .unknown) := by
  have hunknown : ∀ s ∈ signals, r.engine.query s time = .unknown :=
    fun s hs => Engine.query_eq_unknown fun u hu => hbefore u (mem_changeTimes_of_mem hs hu)
  rw [queryMany?, hsignals, Option.map_some, List.map_congr_left hunknown, List.map_const']

/-- **The times of change determine all readings.** Take signals of a recording, any number of
times each. Their times of change are listed by `changeTimes?`, and their readings by
`queryMany?` at two points in time are the same whenever it is `QuietBetween` the one and the
other: none of these times lies after the one and up to the other. Before all of the times of
change every reading is unknown. At any other time there is a greatest one of them that is not
later, and the readings are those at that time. -/
theorem changeTimes_determine_readings (r : Recording) (ids : List SignalId)
    (hids : ∀ id ∈ ids, id.index < r.size) :
    ∃ times, r.changeTimes? ids = some times ∧
      (∀ start stop, start ≤ stop → (∀ u ∈ times, ¬ (start < u ∧ u ≤ stop)) →
        ∃ readings, r.queryMany? ids start = some readings ∧
          r.queryMany? ids stop = some readings) ∧
      (∀ time, (∀ u ∈ times, time < u) →
        r.queryMany? ids time = some (List.replicate ids.length .unknown)) ∧
      (∀ time, ¬ (∀ u ∈ times, time < u) →
        ∃ u ∈ times, u ≤ time ∧ (∀ v ∈ times, v ≤ time → v ≤ u) ∧
          r.queryMany? ids time = r.queryMany? ids u) := by
  obtain ⟨signals, hsignals, hlength⟩ := exists_signals? hids
  refine ⟨changeTimes (signals.map Signal.history), congrArg (Option.map _) hsignals, ?_, ?_, ?_⟩
  · intro start stop hle hquiet
    obtain ⟨readings, hreadings⟩ : ∃ readings, r.queryMany? ids stop = some readings :=
      ⟨_, congrArg (Option.map _) hsignals⟩
    exact ⟨readings, (queryMany?_eq_of_quiet hsignals hle hquiet).trans hreadings, hreadings⟩
  · intro time hbefore
    rw [queryMany?_eq_unknown hsignals hbefore, hlength]
  · intro time hsome
    simp only [not_forall, Int64.not_lt] at hsome
    obtain ⟨u, hu, hle⟩ := hsome
    obtain ⟨v, hv, hvle, hgreatest⟩ := exists_greatest_upTo hu hle
    refine ⟨v, hv, hvle, hgreatest, ?_⟩
    exact (queryMany?_eq_of_quiet hsignals hvle (quietBetween_of_greatest hgreatest)).symm

/-- A clock and a bus with one change at a time of its own: a sample at the last time of
change, and one before the first. -/
theorem changeTimes_determine_readings_bus :
    let clock : SignalId := ⟨0, by decide⟩
    let bus : SignalId := ⟨1, by decide⟩
    let calls : List Recorder.Call :=
      [.declare "clock" 0 0, .declare "bus" 1 0, .record clock ⟨0, .scalar .one⟩,
        .record bus ⟨3, .vector [.one, .x]⟩, .record clock ⟨5, .scalar .zero⟩]
    let r := ((Recorder.new { unknownBits := .propagate }).run calls).1.finish
    (∀ id ∈ [bus, clock], id.index < r.size) ∧
      r.changeTimes? [bus, clock] = some [0, 3, 5] ∧
      r.queryMany? [bus, clock] 9 = r.queryMany? [bus, clock] 5 ∧
      r.queryMany? [bus, clock] (-1) = some [.unknown, .unknown] := by
  intro clock bus calls r
  have hids : ∀ id ∈ [bus, clock], id.index < r.size := by decide
  obtain ⟨times, htimes, hquiet, hbefore, -⟩ := changeTimes_determine_readings r [bus, clock] hids
  have hlist : r.changeTimes? [bus, clock] = some [0, 3, 5] := by cbv
  obtain rfl : times = [0, 3, 5] := Option.some.inj (htimes.symm.trans hlist)
  obtain ⟨readings, hfive, hnine⟩ := hquiet 5 9 (by decide) (by simp)
  exact ⟨hids, hlist, hnine.trans hfive.symm, hbefore (-1) (by simp)⟩

end Recording

end Waveform
