import Waveform.Proofs.History.Lookup
import Waveform.Proofs.Recorder.Step

/-!
# A Recording is a Log

Over a whole run a recorder does no more than a plain log would: it keeps, for every signal
it has declared, the changes that it accepted for that signal, in the order of the calls.

The log of a run is read off from outside, from the calls and their answers
(`Recorder.exchanges`), and `Recorder.accepted` filters it for one signal. From the laws of
a single call follow those of a run by induction on the calls, one for a signal that is
declared already (`Recorder.signal_run`) and one for a signal that the run declares
(`Recorder.declared_run`).

The main statement, `Recorder.finish_run_refines_log`, is about the finished recording: a
signal that was declared has the accepted changes as its history, and a query about it
decodes the last of these that is not later than the time.
-/

namespace Waveform

namespace Signal

/-- A signal is a scalar when its range has a single index. -/
theorem isScalar_iff (s : Signal) : s.isScalar = true ↔ s.msi = s.lsi := by
  rw [isScalar, decide_eq_true_eq, width, ← Int32.toInt_inj]
  omega

end Signal

namespace Recorder

variable {r : Recorder} {id : SignalId} {s : Signal} {call : Call}

/-! ### The log of a run -/

/-- The **log of a run**: its calls, each with the `Answer` to it. -/
def exchanges (r : Recorder) (calls : List Call) : List (Call × Answer) :=
  calls.zip ((r.run calls).2.map Outcome.answer)

theorem exchanges_cons (r : Recorder) (call : Call) (calls : List Call) :
    r.exchanges (call :: calls) =
      (call, (r.perform call).2.answer) :: (r.perform call).1.exchanges calls := rfl

/-- Every call is in the log. -/
theorem map_fst_exchanges (r : Recorder) (calls : List Call) :
    (r.exchanges calls).map Prod.fst = calls := by
  induction calls generalizing r with
  | nil => rfl
  | cons call calls ih => rw [exchanges_cons, List.map_cons, ih]

/-- Every exchange in the log is that of some recorder on the way. -/
theorem exists_perform_of_mem {answer : Answer} {calls : List Call}
    (hmem : (call, answer) ∈ r.exchanges calls) :
    ∃ r' : Recorder, (r'.perform call).2.answer = answer := by
  induction calls generalizing r with
  | nil => exact absurd hmem List.not_mem_nil
  | cons first calls ih =>
      rw [exchanges_cons, List.mem_cons] at hmem
      rcases hmem with heq | hmem
      · obtain ⟨rfl, rfl⟩ := Prod.mk.inj heq
        exact ⟨r, rfl⟩
      · exact ih hmem

/-- The changes of a signal that were **accepted**, by `acceptedChange?` and in the order of the
calls. -/
def accepted (id : SignalId) (log : List (Call × Answer)) : List Change :=
  log.filterMap (acceptedChange? id)

theorem accepted_cons (id : SignalId) (exchange : Call × Answer) (log : List (Call × Answer)) :
    accepted id (exchange :: log) = (acceptedChange? id exchange).toList ++ accepted id log := by
  rw [accepted, List.filterMap_cons]
  cases acceptedChange? id exchange <;> rfl

/-! ### Laws of a run -/

theorem run_cons (r : Recorder) (call : Call) (calls : List Call) :
    r.run (call :: calls) =
      (((r.perform call).1.run calls).1,
        (r.perform call).2 :: ((r.perform call).1.run calls).2) := rfl

/-- **The seam of a run.** To `run` more calls is to go on from the recorder that the earlier
ones led to, and the outcomes follow theirs. -/
theorem run_append (r : Recorder) (calls more : List Call) :
    r.run (calls ++ more) =
      (((r.run calls).1.run more).1, (r.run calls).2 ++ ((r.run calls).1.run more).2) := by
  induction calls generalizing r with
  | nil => rfl
  | cons call calls ih =>
      rw [List.cons_append, run_cons, run_cons, ih, List.cons_append]

/-- Every call has its `Outcome`. -/
theorem length_outcomes (r : Recorder) (calls : List Call) :
    (r.run calls).2.length = calls.length := by
  induction calls generalizing r with
  | nil => rfl
  | cons call calls ih => rw [run_cons, List.length_cons, ih, List.length_cons]

/-- No run alters the settings. -/
theorem settings_run (r : Recorder) (calls : List Call) :
    (r.run calls).1.settings = r.settings := by
  induction calls generalizing r with
  | nil => rfl
  | cons call calls ih =>
      rw [run_cons, ih, settings_perform]

/-- Nor do the settings have a say in what a run does. -/
theorem run_withSettings (r : Recorder) (settings : Settings) (calls : List Call) :
    (r.withSettings settings).run calls =
      ((r.run calls).1.withSettings settings, (r.run calls).2) := by
  induction calls generalizing r with
  | nil => rfl
  | cons call calls ih =>
      rw [run_cons, perform_withSettings, ih, run_cons]

/-- **A run extends a signal** by the changes that it accepts for it. -/
theorem signal_run (hs : r.signals[id.index]? = some s) (calls : List Call) :
    ∃ s', (r.run calls).1.signals[id.index]? = some s' ∧
      ExtendsBy s s' (accepted id (r.exchanges calls)) := by
  induction calls generalizing r s with
  | nil => exact ⟨s, hs, ExtendsBy.refl s⟩
  | cons call calls ih =>
      obtain ⟨s', hs', hstep⟩ := signal_perform hs call
      obtain ⟨s'', hs'', hrest⟩ := ih hs'
      rw [exchanges_cons, accepted_cons]
      exact ⟨s'', hs'', hstep.trans hrest⟩

/-- An identity that is in use is not given away during a run. -/
theorem notMem_exchanges (hs : r.signals[id.index]? = some s) (calls : List Call) :
    (call, .declared id) ∉ r.exchanges calls := by
  induction calls generalizing r s with
  | nil => exact List.not_mem_nil
  | cons next calls ih =>
      obtain ⟨s', hs', -⟩ := signal_perform hs next
      rw [exchanges_cons, List.mem_cons, not_or]
      refine ⟨fun heq => ?_, ih hs'⟩
      exact answer_ne_declared hs next (congrArg Prod.snd heq).symm

/-- **A run that declares a signal** ends with that signal and the changes that it accepts
for it. -/
theorem declared_run {name : String} {msi lsi : Int32} {calls : List Call}
    (hs : r.signals[id.index]? = none)
    (hmem : (.declare name msi lsi, .declared id) ∈ r.exchanges calls) :
    ∃ s', (r.run calls).1.signals[id.index]? = some s' ∧
      ExtendsBy { name := name, msi := msi, lsi := lsi } s'
        (accepted id (r.exchanges calls)) := by
  induction calls generalizing r with
  | nil => exact absurd hmem List.not_mem_nil
  | cons call calls ih =>
      obtain ⟨hnone, hstep⟩ := noSignal_perform hs call
      rw [exchanges_cons, List.mem_cons] at hmem
      rw [exchanges_cons, accepted_cons, hnone]
      rcases hstep with ⟨hs', hanswer⟩ | ⟨name', msi', lsi', hcall, hanswer, hs'⟩
      · -- still undeclared, so the declaration comes later
        rcases hmem with heq | hmem
        · exact absurd (congrArg Prod.snd heq).symm hanswer
        · exact ih hs' hmem
      · -- declared by this call, and never again
        rcases hmem with heq | hmem
        · obtain ⟨rfl, rfl, rfl⟩ : name = name' ∧ msi = msi' ∧ lsi = lsi' := by
            have hcall' := congrArg Prod.fst heq
            rw [hcall] at hcall'
            simpa using hcall'
          exact signal_run hs' calls
        · exact absurd hmem (notMem_exchanges hs' calls)

/-! ### The finished recording -/

/-- **A recording refines a plain log.** Take any calls to a new recorder, and a signal that one
of them declared. In the finished recording its history has exactly the changes that were
`accepted` for it, in the order of the calls. A `query?` about it decodes the last of these
changes that is not later than the time, by `lastUpTo?`, or none if there is none: as a scalar
when the range has a single index, and otherwise as a vector of the width of the range. -/
theorem finish_run_refines_log (settings : Settings) (calls : List Call) (id : SignalId)
    (name : String) (msi lsi : Int32)
    (hdeclared : (Call.declare name msi lsi, Answer.declared id) ∈
      (new settings).exchanges calls) :
    let recording := ((new settings).run calls).1.finish
    let log := accepted id ((new settings).exchanges calls)
    ((new settings).exchanges calls).map Prod.fst = calls ∧
      (∃ s, recording.signal? id = some s ∧ s.history.toList = log) ∧
      ∀ time, recording.query? id time = some
        (if msi = lsi then Reading.ofScalar (lastUpTo? log time)
        else Reading.ofVector (lastUpTo? log time) ((msi.toInt - lsi.toInt).natAbs + 1)
          settings.unknownBits) := by
  intro recording log
  obtain ⟨s, hs, hname, hmsi, hlsi, hlog⟩ :=
    declared_run (getElem?_signals_new settings id) hdeclared
  have hsignal : recording.signal? id = some s := hs
  have hhistory : s.history.toList = log := by rw [hlog]; rfl
  have hsettings : recording.engine.settings = settings := settings_run (new settings) calls
  refine ⟨map_fst_exchanges _ _, ⟨s, hsignal, hhistory⟩, fun time => ?_⟩
  have hscalar := s.isScalar_iff
  rw [hmsi, hlsi] at hscalar
  rw [Recording.query?, hsignal, Option.map_some, Engine.query, Engine.decode,
    History.inEffect?_eq_lastUpTo?, hhistory, hsettings, Signal.width, hmsi, hlsi]
  simp only [hscalar]

/-- A bus of two bits: of its four changes one comes too late, and two share a time. -/
theorem finish_run_refines_log_bus :
    let bus : SignalId := ⟨0, by decide⟩
    let calls : List Call :=
      [.declare "bus" 1 0, .record bus ⟨2, .vector [.zero, .one]⟩,
        .record bus ⟨5, .vector [.one, .zero]⟩, .record bus ⟨4, .vector [.zero, .zero]⟩,
        .declare "bus" 0 0, .record bus ⟨5, .vector [.one, .one]⟩]
    (Call.declare "bus" 1 0, Answer.declared bus) ∈ (new {}).exchanges calls ∧
      ((new {}).run calls).1.finish.query? bus 4 = some (.vector 1) ∧
      ((new {}).run calls).1.finish.query? bus 7 = some (.vector 3) := by
  intro bus calls
  have hdeclared : (Call.declare "bus" 1 0, Answer.declared bus) ∈ (new {}).exchanges calls := by
    decide
  have hlog := finish_run_refines_log {} calls bus "bus" 1 0 hdeclared
  exact ⟨hdeclared, (hlog.2.2 4).trans (by decide), (hlog.2.2 7).trans (by decide)⟩

end Recorder

end Waveform
