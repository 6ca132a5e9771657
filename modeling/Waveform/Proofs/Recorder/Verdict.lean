import Waveform.Proofs.History.Building
import Waveform.Proofs.Recorder.Run

/-!
# Rejected Changes Leave no Trace

A change is offered to a recorder, and the recorder gives a verdict on it. `Verdict` says
by rules, and without looking at the checks that the recorder makes, which verdict a change
gets and what is reported to the log with it. The rules exclude each other
(`Verdict.unique`), and the recorder always follows one of them (`Recorder.verdict_record`).

What a verdict does to the recorder is one of two things. A rejection leaves it exactly as
it was (`Recorder.record_of_rejected`), and acceptance adds the change to the history of its
signal, while everything else stays (`Recorder.record_of_recorded`).

From the first of these follows a law of whole runs by induction on the calls: to leave out
all calls that were rejected changes neither the answers to the others nor the recorder at
the end (`Recorder.run_kept`). The main statement,
`Recorder.rejected_changes_leave_no_trace`, puts the laws together for every recorder that a
run can reach.
-/

namespace Waveform

/-! ### When a change fits -/

/-- A value **fits** a signal when it has as many `bits?` as the range of the signal, or no bits
at all. A scalar has one bit, and reals and empty vectors have none. -/
def Value.Fits (v : Value) (s : Signal) : Prop :=
  ∀ bits, v.bits? = some bits → bits ≠ [] →
    bits.length = (s.msi.toInt - s.lsi.toInt).natAbs + 1

namespace Recorder

variable {r : Recorder} {id : SignalId} {s : Signal} {c : Change} {v : Value}

theorem isAbsent_iff : v.isAbsent = true ↔ v.bits? = some [] := by
  cases v with
  | scalar bit => simp [Value.isAbsent, Value.bits?]
  | vector bits => cases bits <;> simp [Value.isAbsent, Value.bits?]
  | real number => simp [Value.isAbsent, Value.bits?]

/-- `widthMismatch?` fails for exactly the values that have bits, but not as many as the range of
the signal. -/
theorem widthMismatch?_eq_some_iff {why : Rejection} :
    widthMismatch? s v = some why ↔
      ∃ bits, v.bits? = some bits ∧ bits ≠ [] ∧
        bits.length ≠ (s.msi.toInt - s.lsi.toInt).natAbs + 1 ∧
        why = .widthMismatch ((s.msi.toInt - s.lsi.toInt).natAbs + 1) bits.length := by
  rw [widthMismatch?, Value.width?]
  cases hbits : v.bits? with
  | none => simp
  | some bits =>
      have habsent : v.isAbsent = true ↔ bits = [] := by
        rw [isAbsent_iff, hbits, Option.some.injEq]
      simp only [Option.map_some, habsent, Signal.width, Option.some.injEq, exists_eq_left']
      split
      · rename_i hfits
        simp only [reduceCtorEq, false_iff]
        rintro ⟨hne, hlength, -⟩
        exact hfits.elim hlength hne
      · rename_i hmismatch
        rw [not_or] at hmismatch
        simp only [Option.some.injEq, ne_eq, hmismatch, not_false_eq_true, true_and]
        exact eq_comm

/-- The values that pass `widthMismatch?` are those that fit. -/
theorem widthMismatch?_eq_none_iff : widthMismatch? s v = none ↔ v.Fits s := by
  simp only [Option.eq_none_iff_forall_ne_some, ne_eq, widthMismatch?_eq_some_iff, Value.Fits]
  constructor
  · intro hpass bits hbits hne
    exact Decidable.byContradiction fun hlength => hpass _ ⟨bits, hbits, hne, hlength, rfl⟩
  · rintro hfits why ⟨bits, hbits, hne, hlength, -⟩
    exact hlength (hfits bits hbits hne)

/-! ### The rules -/

/-- The **verdict** on a change of the signal with some identity, as the answer and the
notices that come with it. The signal is given if it was declared. -/
inductive Verdict (id : SignalId) (c : Change) : Option Signal → Outcome → Prop
  /-- There is no such signal. -/
  | unknownSignal : Verdict id c none { answer := .rejected (.unknownSignal id) }
  /-- The value has bits, but not as many as the range of the signal. -/
  | widthMismatch {s : Signal} {bits : List Bit} : c.value.bits? = some bits → bits ≠ [] →
      bits.length ≠ (s.msi.toInt - s.lsi.toInt).natAbs + 1 →
      Verdict id c (some s)
        { answer := .rejected
            (.widthMismatch ((s.msi.toInt - s.lsi.toInt).natAbs + 1) bits.length) }
  /-- The value fits, but the signal has a later change. This is reported. -/
  | outOfOrder {s : Signal} {last : Change} : c.value.Fits s →
      s.history.toList.getLast? = some last → c.time < last.time →
      Verdict id c (some s)
        { answer := .rejected (.outOfOrder ⟨last.time, c.time⟩)
          notices := [.changeRejected s.name ⟨last.time, c.time⟩] }
  /-- The value fits, and the signal has no later change. -/
  | recorded {s : Signal} : c.value.Fits s →
      (∀ last, s.history.toList.getLast? = some last → last.time ≤ c.time) →
      Verdict id c (some s) { answer := .recorded }

/-- The rules exclude each other. -/
theorem Verdict.unique {s? : Option Signal} {outcome outcome' : Outcome}
    (h : Verdict id c s? outcome) (h' : Verdict id c s? outcome') : outcome = outcome' := by
  cases h with
  | unknownSignal =>
      cases h' with
      | unknownSignal => rfl
  | widthMismatch hbits hne hlength =>
      cases h' with
      | widthMismatch hbits' =>
          obtain rfl := Option.some.inj (hbits.symm.trans hbits')
          rfl
      | outOfOrder hfits => exact absurd (hfits _ hbits hne) hlength
      | recorded hfits => exact absurd (hfits _ hbits hne) hlength
  | outOfOrder hfits hlast hlt =>
      cases h' with
      | widthMismatch hbits hne hlength => exact absurd (hfits _ hbits hne) hlength
      | outOfOrder _ hlast' =>
          obtain rfl := Option.some.inj (hlast.symm.trans hlast')
          rfl
      | recorded _ hle => exact absurd hlt (Int64.not_lt.mpr (hle _ hlast))
  | recorded hfits hle =>
      cases h' with
      | widthMismatch hbits hne hlength => exact absurd (hfits _ hbits hne) hlength
      | outOfOrder _ hlast hlt => exact absurd hlt (Int64.not_lt.mpr (hle _ hlast))
      | recorded => rfl

/-- **The recorder follows the rules** of `Verdict`, in its answer and in what it reports. -/
theorem verdict_record (r : Recorder) (id : SignalId) (c : Change) :
    Verdict id c r.signals[id.index]? (r.record id c).2 := by
  rw [record, rejection?]
  cases hs : r.signals[id.index]? with
  | none => exact .unknownSignal
  | some s =>
      simp only [objection?]
      cases hwidth : widthMismatch? s c.value with
      | some why =>
          obtain ⟨bits, hbits, hne, hlength, rfl⟩ := widthMismatch?_eq_some_iff.mp hwidth
          exact .widthMismatch hbits hne hlength
      | none =>
          have hfits := widthMismatch?_eq_none_iff.mp hwidth
          cases horder : s.history.outOfOrder? c.time with
          | some why =>
              obtain ⟨last, hlast, hlt, rfl⟩ := History.outOfOrder?_eq_some_iff.mp horder
              simp only [Option.map_some, rejectionNotices, hs]
              exact .outOfOrder hfits hlast hlt
          | none => exact .recorded hfits (History.outOfOrder?_eq_none_iff.mp horder)

/-- Whatever a `Verdict` reports is a warning. -/
theorem Verdict.severity_eq {s? : Option Signal} {outcome : Outcome}
    (h : Verdict id c s? outcome) : ∀ n ∈ outcome.notices, n.severity = .warn := by
  cases h with
  | unknownSignal => simp
  | widthMismatch => simp
  | outOfOrder => simp [Notice.severity]
  | recorded => simp

/-! ### What a verdict does -/

/-- The answer is a rejection. -/
def Answer.isRejected : Answer → Bool
  | .rejected _ => true
  | _ => false

/-- **A rejected change** leaves the recorder as it was. -/
theorem record_of_rejected (hrejected : (r.record id c).2.answer.isRejected = true) :
    (r.record id c).1 = r := by
  rcases record_cases r id c with ⟨why, -, hr⟩ | ⟨s, -, -, hr⟩
  · rw [hr]
  · rw [hr] at hrejected
    simp [Answer.isRejected] at hrejected

/-- **A recorded change** is appended to the history of its signal, and nothing else
happens. -/
theorem record_of_recorded (hrecorded : (r.record id c).2.answer = .recorded) :
    ∃ s h, r.signals[id.index]? = some s ∧ s.history.append c = .ok h ∧
      (r.record id c).1 =
        { r with signals := r.signals.setIfInBounds id.index { s with history := h } } := by
  rcases record_cases r id c with ⟨why, -, hr⟩ | ⟨s, hs, hobjection, hr⟩
  · simp [hr] at hrecorded
  · obtain ⟨-, horder⟩ := objection?_eq_none_iff.mp hobjection
    have haccepts := History.accepts_of_outOfOrder? horder
    refine ⟨s, s.history.push c haccepts, hs,
      History.append_eq_ok_iff.mpr ⟨haccepts, rfl, horder⟩, ?_⟩
    have hmodify : r.signals.modify id.index (extend c) =
        r.signals.setIfInBounds id.index (extend c s) := by
      refine Array.ext_getElem? fun i => ?_
      rw [Array.getElem?_modify, Array.getElem?_setIfInBounds]
      by_cases hi : id.index = i
      · subst hi
        rw [if_pos rfl, if_pos rfl, hs, Option.map_some,
          if_pos (Array.getElem?_eq_some_iff.mp hs).1]
      · rw [if_neg hi, if_neg hi]
    rw [hr, hmodify, extend_eq horder]

/-- Only changes are rejected. -/
theorem exists_record_of_rejected {call : Call}
    (hrejected : (r.perform call).2.answer.isRejected = true) :
    ∃ id c, call = .record id c := by
  cases call with
  | declare name msi lsi =>
      rcases declare_cases r name msi lsi with ⟨-, hfull⟩ | ⟨id, -, hanswer, -⟩
      · simp [perform, hfull, Answer.isRejected] at hrejected
      · simp [perform, hanswer, Answer.isRejected] at hrejected
  | record id c => exact ⟨id, c, rfl⟩
  | setTimescale timescale => simp [perform, Answer.isRejected] at hrejected

/-- A rejection leaves the recorder as it was. -/
theorem perform_of_rejected {call : Call}
    (hrejected : (r.perform call).2.answer.isRejected = true) : (r.perform call).1 = r := by
  obtain ⟨id, c, rfl⟩ := exists_record_of_rejected hrejected
  exact record_of_rejected hrejected

/-! ### Leaving out what was rejected -/

/-- The calls of a run that were **not rejected**, by `Answer.isRejected`. -/
def kept (r : Recorder) (calls : List Call) : List Call :=
  ((r.exchanges calls).filter fun exchange => !exchange.2.isRejected).map Prod.fst

/-- Without the calls that are not `kept`, a run ends the same way and has the same outcomes of
all other calls. -/
theorem run_kept (r : Recorder) (calls : List Call) :
    r.run (r.kept calls) =
      ((r.run calls).1, (r.run calls).2.filter fun outcome => !outcome.answer.isRejected) := by
  induction calls generalizing r with
  | nil => rfl
  | cons call calls ih =>
      rw [kept, exchanges_cons]
      cases hrejected : (r.perform call).2.answer.isRejected with
      | true =>
          -- the call is left out, and the rest runs from the same recorder as before
          have hsame := perform_of_rejected hrejected
          rw [List.filter_cons_of_neg (by simp [hrejected]), hsame]
          simp only [run, hsame]
          rw [List.filter_cons_of_neg (by simp [hrejected])]
          exact ih r
      | false =>
          rw [List.filter_cons_of_pos (by simp [hrejected]), List.map_cons]
          simp only [run]
          rw [List.filter_cons_of_pos (by simp [hrejected])]
          have hrest := ih (r.perform call).1
          rw [kept] at hrest
          rw [hrest]

/-- A signal is missing as long as no call has declared it. -/
theorem noSignal_run {calls : List Call} (hs : r.signals[id.index]? = none)
    (hnever : ∀ name msi lsi, (.declare name msi lsi, .declared id) ∉ r.exchanges calls) :
    (r.run calls).1.signals[id.index]? = none := by
  induction calls generalizing r with
  | nil => exact hs
  | cons call calls ih =>
      simp only [exchanges_cons, List.mem_cons, not_or] at hnever
      rcases (noSignal_perform hs call).2 with ⟨hs', -⟩ | ⟨name, msi, lsi, rfl, hanswer, -⟩
      · exact ih hs' fun name msi lsi => (hnever name msi lsi).2
      · exact absurd (by rw [hanswer]) (hnever name msi lsi).1

/-- After a run of a new recorder, the signals that are missing are those that no call has
declared. -/
theorem signal_eq_none_iff (settings : Settings) (calls : List Call) (id : SignalId) :
    ((new settings).run calls).1.signals[id.index]? = none ↔
      ∀ name msi lsi, (.declare name msi lsi, .declared id) ∉ (new settings).exchanges calls := by
  have hnew := getElem?_signals_new settings id
  refine ⟨fun hnone name msi lsi hmem => ?_, noSignal_run hnew⟩
  obtain ⟨s, hs, -⟩ := declared_run hnew hmem
  rw [hs] at hnone
  exact absurd hnone (by simp)

/-- **Rejected changes leave no trace.** Take a recorder that any calls have led to. A signal is
missing from it exactly when none of the calls declared it. The `Verdict` on a change, answer and
notices, is the one that the rules give, and notices are warnings. A rejection leaves the
recorder as it was. Otherwise the change is appended to the history of its signal, and nothing
else happens. To leave out of the calls those that were rejected, and run what is `kept`, makes
no difference to the outcomes of the others, nor to the recorder that they lead to, and so none
to its recording. -/
theorem rejected_changes_leave_no_trace (settings : Settings) (calls : List Call) :
    let r := ((new settings).run calls).1
    (∀ id : SignalId, r.signals[id.index]? = none ↔
      ∀ name msi lsi, (.declare name msi lsi, .declared id) ∉ (new settings).exchanges calls) ∧
      (∀ id c outcome,
        (r.record id c).2 = outcome ↔ Verdict id c r.signals[id.index]? outcome) ∧
      (∀ id c, ∀ n ∈ (r.record id c).2.notices, n.severity = .warn) ∧
      (∀ id c why, (r.record id c).2.answer = .rejected why → (r.record id c).1 = r) ∧
      (∀ id c, (r.record id c).2.answer = .recorded →
        ∃ s h, r.signals[id.index]? = some s ∧ s.history.append c = .ok h ∧
          h.toList = s.history.toList ++ [c] ∧
          (r.record id c).1 =
            { r with signals := r.signals.setIfInBounds id.index { s with history := h } }) ∧
      (new settings).run ((((new settings).exchanges calls).filter fun exchange =>
          !exchange.2.isRejected).map Prod.fst) =
        (r, ((new settings).run calls).2.filter fun outcome => !outcome.answer.isRejected) := by
  intro r
  refine ⟨signal_eq_none_iff settings calls, ?_, ?_, ?_, ?_, run_kept (new settings) calls⟩
  · intro id c outcome
    constructor
    · rintro rfl
      exact verdict_record r id c
    · exact (verdict_record r id c).unique
  · intro id c
    exact (verdict_record r id c).severity_eq
  · intro id c why hwhy
    exact record_of_rejected (by rw [hwhy]; rfl)
  · intro id c hrecorded
    obtain ⟨s, h, hs, happend, hr⟩ := record_of_recorded hrecorded
    exact ⟨s, h, hs, happend, History.toList_append happend, hr⟩

/-- A bus of two bits, for which two of three changes are rejected. One more is rejected
after that, and one is recorded. -/
theorem rejected_changes_leave_no_trace_bus :
    let bus : SignalId := ⟨0, by decide⟩
    let calls : List Call :=
      [.declare "bus" 1 0, .record bus ⟨5, .vector [.one, .x]⟩,
        .record bus ⟨9, .scalar .one⟩, .record bus ⟨4, .vector []⟩]
    (((new {}).run calls).1.record bus ⟨3, .real default⟩).2.answer =
        .rejected (.outOfOrder ⟨5, 3⟩) ∧
      (((new {}).run calls).1.record bus ⟨3, .real default⟩).1 = ((new {}).run calls).1 ∧
      (((new {}).run calls).1.record bus ⟨5, .vector []⟩).2.answer = .recorded ∧
      (∃ s h, ((new {}).run calls).1.signals[bus.index]? = some s ∧
        s.history.append ⟨5, .vector []⟩ = .ok h ∧
        h.toList = s.history.toList ++ [⟨5, .vector []⟩]) ∧
      ((new {}).run [.declare "bus" 1 0, .record bus ⟨5, .vector [.one, .x]⟩]).1 =
        ((new {}).run calls).1 := by
  intro bus calls
  have hlaws := rejected_changes_leave_no_trace {} calls
  have hlate : (((new {}).run calls).1.record bus ⟨3, .real default⟩).2.answer =
      .rejected (.outOfOrder ⟨5, 3⟩) := by decide
  have hfine : (((new {}).run calls).1.record bus ⟨5, .vector []⟩).2.answer = .recorded := by
    decide
  have hkept : (((new {}).exchanges calls).filter fun exchange =>
      !exchange.2.isRejected).map Prod.fst =
        [.declare "bus" 1 0, .record bus ⟨5, .vector [.one, .x]⟩] := by decide
  refine ⟨hlate, hlaws.2.2.2.1 bus _ _ hlate, hfine, ?_, ?_⟩
  · obtain ⟨s, h, hs, happend, hlist, -⟩ := hlaws.2.2.2.2.1 bus ⟨5, .vector []⟩ hfine
    exact ⟨s, h, hs, happend, hlist⟩
  · rw [← hkept, hlaws.2.2.2.2.2]

end Recorder

end Waveform
