import Waveform.Proofs.Recorder.Outline

/-!
# Interleaving is Irrelevant

Loaders call a recorder for many signals in turn. The order among calls for one signal
matters, since changes have to come in the order of time. The order among calls for
different signals does not.

The reason is that a recorder falls apart. Its outline depends on the declarations alone
(`Recorder.outline_run`), its timescale on the last one that was set
(`Recorder.timescale_run`), and each signal on its own changes: `Signal.offerAll` offers
changes to a single signal, without a recorder around it, and a run does exactly that to
each of its signals (`Recorder.signal_run_offerAll`, `Recorder.declared_run_offerAll`).

Two runs that agree on all these parts therefore end with the same recorder, however their
calls are interleaved. That is the main statement, `Recorder.finish_run_eq_of_interleaving`.
It supposes that changes come after the declaration of their signal
(`Recorder.DeclaredFirst`), as an earlier change would be one of an unknown signal.
-/

namespace Waveform

namespace Recorder

/-! ### The parts of a list of calls -/

namespace Call

/-- The change that the call offers for a signal, if it is such a call. -/
def change? (id : SignalId) : Call → Option Change
  | .record other c => if other = id then some c else none
  | _ => none

/-- The timescale that the call sets, if it is such a call. -/
def timescale? : Call → Option Timescale
  | .setTimescale timescale => some timescale
  | _ => none

end Call

/-- The **changes offered** for a signal, whether they were accepted or not. -/
def changesOf (id : SignalId) (calls : List Call) : List Change :=
  calls.filterMap (Call.change? id)

/-- The `timescale?` that was set **last**. -/
def lastTimescale? (calls : List Call) : Option Timescale :=
  (calls.filterMap Call.timescale?).getLast?

/-- The exchanges about changes of a signal: what was offered, and the answers to it. -/
def exchangesAbout (id : SignalId) (log : List (Call × Answer)) : List (Call × Answer) :=
  log.filter fun exchange => (exchange.1.change? id).isSome

/-- Changes come **after the declaration** of their signal, if `declared` signals have been
declared before. -/
def DeclaredFirst (declared : Nat) : List Call → Prop
  | [] => True
  | .declare _ _ _ :: calls => DeclaredFirst (declared + 1) calls
  | .record id _ :: calls => id.index < declared ∧ DeclaredFirst declared calls
  | .setTimescale _ :: calls => DeclaredFirst declared calls

/-- `DeclaredFirst` can be decided along the calls. -/
def decidableDeclaredFirst (declared : Nat) :
    (calls : List Call) → Decidable (DeclaredFirst declared calls)
  | [] => instDecidableTrue
  | .declare _ _ _ :: calls => decidableDeclaredFirst (declared + 1) calls
  | .record _ _ :: calls => @instDecidableAnd _ _ _ (decidableDeclaredFirst declared calls)
  | .setTimescale _ :: calls => decidableDeclaredFirst declared calls

instance (declared : Nat) (calls : List Call) : Decidable (DeclaredFirst declared calls) :=
  decidableDeclaredFirst declared calls

end Recorder

/-! ### A signal on its own -/

namespace Signal

open Recorder

/-- **Offers a change** to a signal. The signal takes it, unless there is an `objection?`. -/
def offer (s : Signal) (c : Change) : Signal × Answer :=
  match objection? s c with
  | some why => (s, .rejected why)
  | none => (extend c s, .recorded)

/-- Offers changes to a signal one after the other by `offer`. The second component is the log of
the offers, in which the signal has an identity. -/
def offerAll (id : SignalId) (s : Signal) : List Change → Signal × List (Call × Answer)
  | [] => (s, [])
  | c :: cs =>
    let (s', answer) := s.offer c
    let (last, log) := s'.offerAll id cs
    (last, (.record id c, answer) :: log)

theorem blank_offer (s : Signal) (c : Change) : (s.offer c).1.blank = s.blank := by
  rw [offer]
  cases objection? s c with
  | some why => rfl
  | none => exact blank_extend c s

theorem blank_offerAll (id : SignalId) (s : Signal) (changes : List Change) :
    (s.offerAll id changes).1.blank = s.blank := by
  induction changes generalizing s with
  | nil => rfl
  | cons c cs ih => exact (ih (s.offer c).1).trans (blank_offer s c)

end Signal

namespace Recorder

variable {r : Recorder} {id : SignalId} {s : Signal} {c : Change} {call : Call}

/-- A change of a signal is offered to that signal: `record` is an `offer`. -/
theorem perform_record (hs : r.signals[id.index]? = some s) (c : Change) :
    (r.perform (.record id c)).1.signals[id.index]? = some (s.offer c).1 ∧
      (r.perform (.record id c)).2.answer = (s.offer c).2 := by
  cases hobjection : objection? s c with
  | some why =>
      have hwhy : r.rejection? id c = some why := by rw [rejection?, hs]; exact hobjection
      simp only [perform, record, hwhy, Signal.offer, hobjection]
      exact ⟨hs, trivial⟩
  | none =>
      have hwhy : r.rejection? id c = none := rejection?_eq_none_iff.mpr ⟨s, hs, hobjection⟩
      simp only [perform, record, hwhy, Signal.offer, hobjection]
      refine ⟨?_, trivial⟩
      rw [Array.getElem?_modify, if_pos rfl, hs, Option.map_some]

/-- Any other call leaves the signal as it is. -/
theorem perform_of_no_change (hs : r.signals[id.index]? = some s)
    (hcall : call.change? id = none) :
    (r.perform call).1.signals[id.index]? = some s := by
  cases call with
  | declare name msi lsi =>
      have hlt : id.index < r.signals.size := (Array.getElem?_eq_some_iff.mp hs).1
      rcases declare_cases r name msi lsi with ⟨-, hfull⟩ | ⟨new, -, -, hr⟩
      · rw [perform, hfull]
        exact hs
      · rw [perform, hr, Array.getElem?_push_lt hlt, ← hs, Array.getElem?_eq_getElem hlt]
  | record other c =>
      have hother : other ≠ id := by
        rintro rfl
        simp [Call.change?] at hcall
      rcases record_cases r other c with ⟨why, -, hr⟩ | ⟨s₀, -, -, hr⟩
      · rw [perform, hr]
        exact hs
      · rw [perform, hr, Array.getElem?_modify, if_neg (SignalId.index_ne hother)]
        exact hs
  | setTimescale timescale => exact hs

theorem eq_record_of_change? (hcall : call.change? id = some c) : call = .record id c := by
  cases call with
  | declare name msi lsi => simp [Call.change?] at hcall
  | record other d =>
      rw [Call.change?, Option.ite_none_right_eq_some] at hcall
      obtain ⟨rfl, hd⟩ := hcall
      rw [Option.some.inj hd]
  | setTimescale timescale => simp [Call.change?] at hcall

theorem exchangesAbout_cons_of_some (hcall : call.change? id = some c) (answer : Answer)
    (log : List (Call × Answer)) :
    exchangesAbout id ((call, answer) :: log) = (call, answer) :: exchangesAbout id log :=
  List.filter_cons_of_pos (by rw [hcall]; rfl)

theorem exchangesAbout_cons_of_none (hcall : call.change? id = none) (answer : Answer)
    (log : List (Call × Answer)) :
    exchangesAbout id ((call, answer) :: log) = exchangesAbout id log :=
  List.filter_cons_of_neg (by rw [hcall]; exact Bool.false_ne_true)

/-- **A run offers a signal its changes**, and does nothing else to it. -/
theorem signal_run_offerAll (hs : r.signals[id.index]? = some s) (calls : List Call) :
    (r.run calls).1.signals[id.index]? = some (s.offerAll id (changesOf id calls)).1 ∧
      exchangesAbout id (r.exchanges calls) = (s.offerAll id (changesOf id calls)).2 := by
  induction calls generalizing r s with
  | nil => exact ⟨hs, rfl⟩
  | cons call calls ih =>
      rw [exchanges_cons, changesOf]
      cases hcall : call.change? id with
      | none =>
          rw [List.filterMap_cons_none hcall, exchangesAbout_cons_of_none hcall]
          exact ih (perform_of_no_change hs hcall)
      | some c =>
          obtain rfl := eq_record_of_change? hcall
          obtain ⟨hs', hanswer⟩ := perform_record hs c
          obtain ⟨hlast, hlog⟩ := ih hs'
          rw [List.filterMap_cons_some hcall, exchangesAbout_cons_of_some hcall, hanswer, hlog]
          exact ⟨hlast, rfl⟩

/-- The number of declarations is that of the signals, unless there is no identity left for
another one. -/
def Counts (r : Recorder) (declared : Nat) : Prop :=
  declared ≤ r.signals.size ∨ UInt32.size ≤ r.signals.size + 1

theorem Counts.declare {declared : Nat} (h : r.Counts declared) (name : String)
    (msi lsi : Int32) : (r.declare name msi lsi).1.Counts (declared + 1) := by
  rw [Counts, size_declare]
  rcases h with h | h
  · split <;> omega
  · rw [if_neg (by omega)]
    exact Or.inr h

/-- A signal whose declaration was counted is not one that is missing. -/
theorem Counts.ne {declared : Nat} {other : SignalId} (h : r.Counts declared)
    (hother : other.index < declared) (hs : r.signals[id.index]? = none) : other ≠ id := by
  have hge : r.signals.size ≤ id.index := Array.getElem?_eq_none_iff.mp hs
  have hlt := id.index_lt
  rintro rfl
  rcases h with h | h
  · omega
  · omega

/-- **A run offers a signal that it declares its changes**, from the declaration on. Before
that no change is offered, since changes come after the declaration of their signal. -/
theorem declared_run_offerAll {declared : Nat} {calls : List Call}
    (hs : r.signals[id.index]? = none) (hcount : r.Counts declared)
    (hfirst : DeclaredFirst declared calls) :
    (r.run calls).1.signals[id.index]? = none ∧ exchangesAbout id (r.exchanges calls) = [] ∨
      ∃ s, (r.run calls).1.signals[id.index]? = some s ∧
        s = (s.blank.offerAll id (changesOf id calls)).1 ∧
        exchangesAbout id (r.exchanges calls) =
          (s.blank.offerAll id (changesOf id calls)).2 := by
  induction calls generalizing r declared with
  | nil => exact Or.inl ⟨hs, rfl⟩
  | cons call calls ih =>
      cases call with
      | declare name msi lsi =>
          have hnone : (Call.declare name msi lsi).change? id = none := rfl
          rw [exchanges_cons, changesOf, List.filterMap_cons_none hnone,
            exchangesAbout_cons_of_none hnone]
          rcases (noSignal_perform hs (.declare name msi lsi)).2 with
            ⟨hs', -⟩ | ⟨name', msi', lsi', -, -, hs'⟩
          · -- another signal was declared, or none
            exact ih hs' (hcount.declare name msi lsi) hfirst
          · -- this one was declared, and it has no change yet
            obtain ⟨hlast, hlog⟩ := signal_run_offerAll hs' calls
            refine Or.inr ⟨_, hlast, ?_, ?_⟩
            · rw [Signal.blank_offerAll]
              rfl
            · rw [Signal.blank_offerAll, hlog]
              rfl
      | record other c =>
          obtain ⟨hdeclared, hfirst⟩ := hfirst
          have hnone : (Call.record other c).change? id = none :=
            if_neg (hcount.ne hdeclared hs)
          rw [exchanges_cons, changesOf, List.filterMap_cons_none hnone,
            exchangesAbout_cons_of_none hnone]
          rcases (noSignal_perform hs (.record other c)).2 with
            ⟨hs', -⟩ | ⟨name', msi', lsi', hcall, -, -⟩
          · have hcount' : (r.perform (.record other c)).1.Counts declared := by
              rwa [Counts, size_perform rfl]
            exact ih hs' hcount' hfirst
          · exact absurd hcall (by simp)
      | setTimescale timescale =>
          exact ih (r := (r.perform (.setTimescale timescale)).1) hs hcount hfirst

/-! ### The timescale -/

/-- A call sets the timescale, or leaves it as it is. -/
theorem timescale_perform (r : Recorder) (call : Call) :
    (r.perform call).1.timescale? = call.timescale?.or r.timescale? := by
  cases call with
  | declare name msi lsi =>
      rcases declare_cases r name msi lsi with ⟨-, hfull⟩ | ⟨id, -, -, hr⟩
      · rw [perform, hfull]
        rfl
      · rw [perform, hr]
        rfl
  | record id c =>
      rcases record_cases r id c with ⟨why, -, hr⟩ | ⟨s, -, -, hr⟩
      · rw [perform, hr]
        rfl
      · rw [perform, hr]
        rfl
  | setTimescale timescale => rfl

/-- A run ends with the timescale that was set **last**, by `lastTimescale?`. -/
theorem timescale_run (r : Recorder) (calls : List Call) :
    (r.run calls).1.timescale? = (lastTimescale? calls).or r.timescale? := by
  induction calls generalizing r with
  | nil => rfl
  | cons call calls ih =>
      rw [run_cons, ih, timescale_perform, ← Option.or_assoc, lastTimescale?, lastTimescale?]
      cases hcall : call.timescale? with
      | none => rw [List.filterMap_cons_none hcall, Option.or_none]
      | some timescale =>
          rw [List.filterMap_cons_some hcall, List.getLast?_cons]
          cases (calls.filterMap Call.timescale?).getLast? with
          | none => rfl
          | some last => rfl

/-! ### Putting the parts together -/

/-- **The parts of a run**: each of its signals comes from the outline and from the changes
that were offered for it, and so do the answers to these. -/
theorem signal_run_of_outline {calls : List Call} (settings : Settings)
    (hfirst : DeclaredFirst 0 calls) (id : SignalId) :
    ((new settings).run calls).1.signals[id.index]? =
        (((new settings).run calls).1.outline.signals[id.index]?).map
          (fun s => (s.offerAll id (changesOf id calls)).1) ∧
      exchangesAbout id ((new settings).exchanges calls) =
        ((((new settings).run calls).1.outline.signals[id.index]?).map
          (fun s => (s.offerAll id (changesOf id calls)).2)).getD [] := by
  rw [getElem?_outline]
  rcases declared_run_offerAll (getElem?_signals_new settings id) (Or.inl (Nat.zero_le _))
    hfirst with ⟨hs, hlog⟩ | ⟨s, hs, hlast, hlog⟩
  · rw [hs, hlog]
    exact ⟨rfl, rfl⟩
  · rw [hs, hlog]
    exact ⟨congrArg some hlast, rfl⟩

/-- Runs with the same declarations and the same changes for each signal end with the same
signals. -/
theorem signals_run_eq_of_interleaving {calls calls' : List Call} (settings : Settings)
    (hfirst : DeclaredFirst 0 calls) (hfirst' : DeclaredFirst 0 calls')
    (houtline : ((new settings).run calls).1.outline = ((new settings).run calls').1.outline)
    (hchanges : ∀ id, changesOf id calls = changesOf id calls') :
    ((new settings).run calls).1.signals = ((new settings).run calls').1.signals := by
  refine Array.ext_getElem? fun i => ?_
  by_cases hi : i + 1 < UInt32.size
  · let id : SignalId := ⟨i, hi⟩
    have hs := (signal_run_of_outline settings hfirst id).1
    have hs' := (signal_run_of_outline settings hfirst' id).1
    rw [← houtline, ← hchanges] at hs'
    exact hs.trans hs'.symm
  · -- behind the last identity there is no signal in either run
    have hlt := size_run_new_lt settings calls
    have hlt' := size_run_new_lt settings calls'
    rw [Array.getElem?_eq_none (by omega), Array.getElem?_eq_none (by omega)]

/-- **Interleaving is irrelevant.** Take two lists of calls with the same `declarations` in the
same order, for each signal the same `changesOf` in the same order, each after the declaration of
its signal, and the same last timescale. However these are interleaved, the changes and the
declarations get the same answers in both runs, and the finished recordings are the same: signals
with their histories, names, extent, timescale and settings, and so all that can be asked of
them. -/
theorem finish_run_eq_of_interleaving (settings : Settings) (calls calls' : List Call)
    (hfirst : DeclaredFirst 0 calls) (hfirst' : DeclaredFirst 0 calls')
    (hdeclarations : declarations calls = declarations calls')
    (hchanges : ∀ id, changesOf id calls = changesOf id calls')
    (htimescale : lastTimescale? calls = lastTimescale? calls') :
    let log := (new settings).exchanges calls
    let log' := (new settings).exchanges calls'
    (∀ id, exchangesAbout id log = exchangesAbout id log') ∧
      log.filter (fun exchange => exchange.1.isDeclaration) =
        log'.filter (fun exchange => exchange.1.isDeclaration) ∧
      ((new settings).run calls).1.finish = ((new settings).run calls').1.finish := by
  intro log log'
  have houtline : ((new settings).run calls).1.outline =
      ((new settings).run calls').1.outline := by
    rw [outline_run, outline_run, hdeclarations]
  refine ⟨fun id => ?_, ?_, ?_⟩
  · have hlog := (signal_run_of_outline settings hfirst id).2
    have hlog' := (signal_run_of_outline settings hfirst' id).2
    rw [← houtline, ← hchanges] at hlog'
    exact hlog.trans hlog'.symm
  · exact (exchanges_declarations _ _).trans
      (hdeclarations ▸ (exchanges_declarations (new settings) calls').symm)
  · have hsignals := signals_run_eq_of_interleaving settings hfirst hfirst' houtline hchanges
    have hnames : ((new settings).run calls).1.names = ((new settings).run calls').1.names :=
      congrArg (fun outline => outline.names) houtline
    rw [finish, finish, hsignals, hnames, timescale_run, timescale_run, htimescale,
      settings_run, settings_run]

/-- A clock and a bus: recorded one after the other with the timescale at the end, and in
the order of time. One change of the clock comes too late in both runs. -/
theorem finish_run_eq_of_interleaving_clock :
    let clock : SignalId := ⟨0, by decide⟩
    let bus : SignalId := ⟨1, by decide⟩
    let calls : List Call :=
      [.declare "clk" 0 0, .record clock ⟨3, .scalar .one⟩, .record clock ⟨1, .scalar .zero⟩,
        .declare "bus" 1 0, .record bus ⟨2, .vector [.one, .zero]⟩, .setTimescale ⟨1, .nanoseconds⟩]
    let calls' : List Call :=
      [.declare "clk" 0 0, .setTimescale ⟨1, .nanoseconds⟩, .declare "bus" 1 0,
        .record bus ⟨2, .vector [.one, .zero]⟩, .record clock ⟨3, .scalar .one⟩,
        .record clock ⟨1, .scalar .zero⟩]
    calls ≠ calls' ∧
      exchangesAbout clock ((new {}).exchanges calls) =
        exchangesAbout clock ((new {}).exchanges calls') ∧
      ((new {}).run calls).1.finish = ((new {}).run calls').1.finish := by
  intro clock bus calls calls'
  have hchanges : ∀ id, changesOf id calls = changesOf id calls' := by
    intro id
    by_cases hclock : clock = id
    · subst hclock
      decide
    · by_cases hbus : bus = id
      · subst hbus
        decide
      · -- there is no change of any other signal
        simp only [changesOf, calls, calls', List.filterMap, Call.change?, hclock, hbus, if_false]
  have hsame := finish_run_eq_of_interleaving {} calls calls' (by decide) (by decide) (by decide)
    hchanges (by decide)
  exact ⟨by decide, hsame.1 clock, hsame.2.2⟩

end Recorder

end Waveform
