import Mathlib.Algebra.BigOperators.Group.Finset.Basic
import Waveform.Proofs.History.Growth
import Waveform.Proofs.Recorder.Fitting
import Waveform.Proofs.Recorder.Naming
import Waveform.Recording

/-!
# The Footprint of a Recording

The estimated size of a recording is read off from what it has reserved, and that has come
about step by step. Still it is known from the log of the run alone.

* The history of every signal grew from nothing, since changes that are rejected reserve
  nothing (`Recorder.grewFromNothing_run`). So its slots are those for the number of changes
  that were accepted.
* The table of names has every name of a signal once, however many signals ask for it
  (`Recorder.toFinset_names`).

The main statement, `Recorder.footprint_closed_form`, gives the sizes in closed form.
-/

namespace Waveform

/-- `NameTable.footprint` is a sum, one summand for each name. -/
theorem NameTable.footprint_eq_sum (t : NameTable) :
    t.footprint = ∑ name ∈ t.names.toFinset, (32 + name.utf8ByteSize) := by
  have hnodup : t.names.Nodup := t.nodup
  rw [List.sum_toFinset _ hnodup, footprint, List.sum_eq_foldr, List.foldr_map]
  rfl

namespace Recorder

variable {r : Recorder} {id : SignalId} {s : Signal} {c : Change}

/-! ### Slots -/

/-- Every history **grew from nothing**, as `GrewFromNothing` puts it. -/
theorem grewFromNothing_run (settings : Settings) (calls : List Call) :
    ∀ s ∈ ((new settings).run calls).1.signals, s.history.GrewFromNothing := by
  refine forall_signals_run (fun _ _ _ => History.grewFromNothing_empty) ?_ ?_ calls
  · intro s c hs hobjection
    have ho := (objection?_eq_none_iff.mp hobjection).2
    rw [extend_eq ho]
    exact hs.push (History.accepts_of_outOfOrder? ho)
  · intro s hs
    exact absurd hs (Array.not_mem_empty s)

/-! ### Names -/

/-- All plain names and all full names of some signals. -/
def allNames (signals : List Signal) : List String :=
  signals.flatMap fun s => [s.name, s.fullName]

/-- The table of names has **each name of a signal once**. -/
theorem toFinset_names (h : r.FirstWins) :
    r.names.names.toFinset = (allNames r.signals.toList).toFinset := by
  ext name
  simp only [List.mem_toFinset, mem_names_iff h, Signal.hasName_iff, allNames, List.mem_flatMap,
    Array.mem_toList_iff, List.mem_pair, or_comm]

/-! ### The finished recording -/

/-- **The footprint in closed form.** After any run, the size of a signal's history comes from
the number of changes that were `accepted` for it, by `slotsFor`, and from their vectors, and the
changes that were rejected make no difference. The size of the recording is made up of the
histories and plain names of all signals, and of `allNames`, each of them once. Slots that were
set aside for a history in advance, or when it was built from a list, are kept until there is one
change more than slots, whatever is offered to it. -/
theorem footprint_closed_form :
    (∀ (settings : Settings) (calls : List Call),
      let recording := ((new settings).run calls).1.finish
      (∀ id s, recording.signal? id = some s →
        let log := accepted id ((new settings).exchanges calls)
        s.history.footprint =
          24 + 32 * History.slotsFor log.length + (log.map fun c => c.value.payloadSize).sum) ∧
        recording.footprint =
          96 + (recording.signals.toList.map fun s =>
            s.history.footprint + s.name.utf8ByteSize).sum +
          ∑ name ∈ (recording.signals.toList.flatMap fun s => [s.name, s.fullName]).toFinset,
            (32 + name.utf8ByteSize)) ∧
      (History.slotsFor 0 = 0 ∧ ∀ count, 0 < count →
        ∃ power, IsLeast {power | (∃ e, power = 2 ^ e) ∧ count ≤ power} power ∧
          History.slotsFor count = max 4 power) ∧
      ∀ (slots : Nat) (h : History),
        h = History.withSlots slots ∨
          (∃ changes, changes.length = slots ∧ History.ofList changes = .ok h) →
        ∀ changes, let h' := (h.offerAll changes).1
          (h'.size ≤ slots → h'.reserved = slots) ∧
            (h'.size = slots + 1 → h'.reserved = max 4 (2 * slots)) := by
  refine ⟨fun settings calls => ?_, ⟨rfl, fun count hpos => ?_⟩, fun slots h hstart changes => ?_⟩
  · intro recording
    have hfirst : ((new settings).run calls).1.FirstWins :=
      firstWins_run (firstWins_new settings) calls
    refine ⟨fun id s hs => ?_, ?_⟩
    · have hgrew := grewFromNothing_run settings calls s (Array.mem_of_getElem? hs)
      intro log
      rw [hgrew.footprint_eq, ← History.length_toList, toList_eq_accepted hs]
    · have hnames : recording.names.footprint =
          ∑ name ∈ (allNames recording.signals.toList).toFinset, (32 + name.utf8ByteSize) := by
        rw [NameTable.footprint_eq_sum]
        exact congrArg (fun names => ∑ name ∈ names, (32 + name.utf8ByteSize))
          (toFinset_names hfirst)
      rw [Recording.footprint, hnames, List.sum_eq_foldr, List.foldr_map]
      rfl
  · exact ⟨_, History.isLeast_two_pow_clog count, History.slotsFor_of_pos hpos⟩
  · have hkeeps : h.Keeps slots := by
      rcases hstart with rfl | ⟨start, rfl, hok⟩
      · exact History.keeps_reserved _
      · exact (History.ofList_eq_ok_iff.mp hok).2 ▸ h.keeps_reserved
    exact hkeeps.offerAll changes

/-- A bus for which one of three changes is rejected, and a history with a single slot that
gets a second change. -/
theorem footprint_closed_form_bus :
    let bus : SignalId := ⟨0, by decide⟩
    let calls : List Call :=
      [.declare "bus" 1 0, .record bus ⟨4, .vector [.one, .x]⟩, .record bus ⟨3, .vector []⟩,
        .record bus ⟨4, .real default⟩]
    let recording := ((new {}).run calls).1.finish
    let changes : List Change := [⟨0, .scalar .one⟩, ⟨-1, .scalar .x⟩, ⟨0, .scalar .zero⟩]
    (∃ s, recording.signal? bus = some s ∧ s.history.footprint = 24 + 32 * 4 + 2) ∧
      recording.footprint = 96 + (154 + 3) + ((32 + 3) + (32 + 8)) ∧
      (∃ power, IsLeast {power | (∃ e, power = 2 ^ e) ∧ 5 ≤ power} power ∧
        History.slotsFor 5 = max 4 power) ∧
      ((History.withSlots 1).offerAll changes).1.reserved = 4 := by
  intro bus calls recording changes
  obtain ⟨hruns, ⟨-, hslots⟩, hkeeps⟩ := footprint_closed_form
  obtain ⟨hhistory, hrecording⟩ := hruns {} calls
  have hs : recording.signal? bus = some ⟨"bus", 1, 0,
      ⟨#[⟨4, .vector [.one, .x]⟩, ⟨4, .real default⟩], 4, by decide, by decide⟩⟩ := rfl
  refine ⟨⟨_, hs, (hhistory bus _ hs).trans (by decide)⟩, hrecording.trans (by decide),
    hslots 5 (by decide), ?_⟩
  exact (hkeeps 1 (History.withSlots 1) (Or.inl rfl) changes).2 (by decide)

end Recorder

end Waveform
