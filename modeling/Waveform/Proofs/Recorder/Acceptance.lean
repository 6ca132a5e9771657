import Waveform.Proofs.Recorder.Interleaving
import Waveform.Proofs.Recorder.Verdict

/-!
# Calls Without Rejections

A recorder can be used strictly, so that the first change that is rejected ends everything
(`Recorder.runStrict`). That does not happen when the calls are **acceptable**
(`Recorder.Acceptable`): changes come after the declaration of their signal, they fit it, and
those of the same signal are in time order, however they are interleaved with others.

Since a run offers each signal its own changes and nothing else, it is enough to look at one
signal: in time order it takes all changes that fit it (`Signal.offerAll_of_inTimeOrder`). So
after acceptable calls every history has just the changes that were offered
(`Recorder.run_of_acceptable`).
-/

namespace Waveform

namespace Signal

open Recorder

variable {s : Signal} {c : Change}

/-- A change that `Fits`, and that keeps the time order, is taken. -/
theorem objection?_of_inTimeOrder (hfits : c.value.Fits s)
    (horder : InTimeOrder (s.history.toList ++ [c])) : objection? s c = none := by
  have haccepts := History.accepts_iff.mpr horder
  refine objection?_eq_none_iff.mpr ⟨widthMismatch?_eq_none_iff.mpr hfits, ?_⟩
  refine History.outOfOrder?_eq_none_iff.mpr fun last hlast => haccepts last.time ?_
  rw [History.lastTime?_eq_getLast?, hlast, Option.map_some]

/-- **In time order** a signal takes all changes that fit it. -/
theorem offerAll_of_inTimeOrder (id : SignalId) {changes : List Change}
    (hfits : ∀ c ∈ changes, c.value.Fits s)
    (horder : InTimeOrder (s.history.toList ++ changes)) :
    ExtendsBy s (s.offerAll id changes).1 changes ∧
      (s.offerAll id changes).2 = changes.map fun c => (.record id c, .recorded) := by
  induction changes generalizing s with
  | nil => exact ⟨ExtendsBy.refl s, rfl⟩
  | cons c cs ih =>
      rw [List.append_cons] at horder
      have hobjection := objection?_of_inTimeOrder (hfits c List.mem_cons_self)
        (List.pairwise_append.mp horder).1
      have hextends := extendsBy_extend hobjection
      have hfits' : ∀ d ∈ cs, d.value.Fits (extend c s) := fun d hd => by
        rw [Value.Fits, hextends.msi_eq, hextends.lsi_eq]
        exact hfits d (List.mem_cons_of_mem c hd)
      obtain ⟨hlast, hlog⟩ := ih hfits' (hextends.toList_eq ▸ horder)
      have hoffer : s.offer c = (extend c s, .recorded) := by rw [offer, hobjection]
      rw [offerAll, hoffer]
      exact ⟨hextends.trans hlast, congrArg _ hlog⟩

end Signal

namespace Recorder

variable {r r' : Recorder} {settings : Settings} {id : SignalId} {s : Signal} {c : Change}
  {call : Call} {calls : List Call}

/-! ### Strict runs -/

/-- `runStrict` succeeds when **nothing is rejected**, and then ends like `run`. -/
theorem runStrict_eq_ok_iff :
    r.runStrict calls = .ok r' ↔
      (∀ exchange ∈ r.exchanges calls, exchange.2.isRejected = false) ∧ (r.run calls).1 = r' := by
  induction calls generalizing r with
  | nil => simp [runStrict, exchanges, run]
  | cons call calls ih =>
      rw [exchanges_cons, List.forall_mem_cons, run_cons, and_assoc, ← ih, runStrict]
      obtain ⟨next, answer, notices⟩ := r.perform call
      cases answer with
      | rejected why => simp [Answer.isRejected]
      | declared id | full | recorded | timescaleSet => simp [Answer.isRejected]

/-- `runStrict` can be made **in two parts**, as the second starts where the first ended. -/
theorem runStrict_append (r : Recorder) (calls more : List Call) :
    r.runStrict (calls ++ more) = (r.runStrict calls).bind fun r' => r'.runStrict more := by
  induction calls generalizing r with
  | nil => rfl
  | cons call calls ih =>
      rw [List.cons_append, runStrict, runStrict]
      obtain ⟨next, answer, notices⟩ := r.perform call
      cases answer with
      | rejected why => rfl
      | declared id | full | recorded | timescaleSet => exact ih next

/-- A rejection in the log of a run is found by `exchangesAbout` the signal. -/
theorem exists_exchangesAbout_of_rejected {answer : Answer}
    (hmem : (call, answer) ∈ r.exchanges calls) (hrejected : answer.isRejected = true) :
    ∃ id c, call = .record id c ∧ call ∈ calls ∧
      (call, answer) ∈ exchangesAbout id (r.exchanges calls) := by
  have hcall : call ∈ calls := map_fst_exchanges r calls ▸ List.mem_map_of_mem hmem
  obtain ⟨r', rfl⟩ := exists_perform_of_mem hmem
  obtain ⟨id, c, rfl⟩ := exists_record_of_rejected hrejected
  exact ⟨id, c, rfl, hcall, List.mem_filter.mpr ⟨hmem, by simp [Call.change?]⟩⟩

/-! ### Acceptable calls -/

theorem mem_changesOf_iff : c ∈ changesOf id calls ↔ .record id c ∈ calls := by
  rw [changesOf, List.mem_filterMap]
  constructor
  · rintro ⟨call, hmem, hcall⟩
    exact eq_record_of_change? hcall ▸ hmem
  · intro hmem
    exact ⟨_, hmem, if_pos rfl⟩

theorem changesOf_append (id : SignalId) (calls more : List Call) :
    changesOf id (calls ++ more) = changesOf id calls ++ changesOf id more :=
  List.filterMap_append

/-- A change counts for its own signal only. -/
theorem changesOf_record_cons (id other : SignalId) (c : Change) (calls : List Call) :
    changesOf id (.record other c :: calls) =
      if other = id then c :: changesOf id calls else changesOf id calls := by
  by_cases hother : other = id
  · have hcall : (Call.record other c).change? id = some c := if_pos hother
    rw [if_pos hother, changesOf, List.filterMap_cons_some hcall, changesOf]
  · have hcall : (Call.record other c).change? id = none := if_neg hother
    rw [if_neg hother, changesOf, List.filterMap_cons_none hcall, changesOf]

/-- Calls to a new recorder are **acceptable** if changes come after the declaration of their
signal (`DeclaredFirst`), have values that fit it, and are in time order for each signal. -/
structure Acceptable (settings : Settings) (calls : List Call) : Prop where
  declaredFirst : DeclaredFirst 0 calls
  fits : ∀ id c, .record id c ∈ calls →
    ∃ s, ((new settings).run (declarations calls)).1.signals[id.index]? = some s ∧ c.value.Fits s
  inTimeOrder : ∀ id, InTimeOrder (changesOf id calls)

/-- The `declarations` alone lead to the outline of the recorder. -/
theorem outline_run_new (settings : Settings) (calls : List Call) :
    ((new settings).run calls).1.outline = ((new settings).run (declarations calls)).1 := by
  have houtline : (new settings).outline = new settings := by simp [outline, new]
  rw [outline_run, houtline]

/-- A signal that was only declared has no changes. -/
theorem toList_of_declarations
    (hs : ((new settings).run (declarations calls)).1.signals[id.index]? = some s) :
    s.history.toList = [] := by
  rw [← outline_run_new, getElem?_outline] at hs
  obtain ⟨s', -, rfl⟩ := Option.map_eq_some_iff.mp hs
  rfl

/-- **Acceptable calls**, seen from one signal: all of its `changesOf` are recorded. -/
theorem signal_run_of_acceptable (h : Acceptable settings calls)
    (hs : ((new settings).run (declarations calls)).1.signals[id.index]? = some s) :
    (∃ s', ((new settings).run calls).1.signals[id.index]? = some s' ∧
        ExtendsBy s s' (changesOf id calls)) ∧
      exchangesAbout id ((new settings).exchanges calls) =
        (changesOf id calls).map fun c => (.record id c, .recorded) := by
  have hfits : ∀ c ∈ changesOf id calls, c.value.Fits s := by
    intro c hc
    obtain ⟨s', hs', hfits⟩ := h.fits id c (mem_changesOf_iff.mp hc)
    obtain rfl := Option.some.inj (hs.symm.trans hs')
    exact hfits
  have horder : InTimeOrder (s.history.toList ++ changesOf id calls) := by
    rw [toList_of_declarations hs, List.nil_append]
    exact h.inTimeOrder id
  obtain ⟨hextends, hlog⟩ := Signal.offerAll_of_inTimeOrder id hfits horder
  obtain ⟨hsignal, habout⟩ := signal_run_of_outline settings h.declaredFirst id
  rw [outline_run_new, hs, Option.map_some] at hsignal habout
  exact ⟨⟨_, hsignal, hextends⟩, habout.trans hlog⟩

/-- **After acceptable calls**, in the sense of `Acceptable`, nothing was rejected, and every
signal that was declared has the changes that were offered for it. -/
theorem run_of_acceptable (h : Acceptable settings calls) :
    (∀ exchange ∈ (new settings).exchanges calls, exchange.2.isRejected = false) ∧
      ∀ id s, ((new settings).run (declarations calls)).1.signals[id.index]? = some s →
        ∃ s', ((new settings).run calls).1.signals[id.index]? = some s' ∧
          ExtendsBy s s' (changesOf id calls) := by
  refine ⟨fun ⟨call, answer⟩ hmem => Bool.eq_false_iff.mpr fun hrejected => ?_,
    fun id s hs => (signal_run_of_acceptable h hs).1⟩
  obtain ⟨id, c, rfl, hcall, habout⟩ := exists_exchangesAbout_of_rejected hmem hrejected
  obtain ⟨s, hs, -⟩ := h.fits id c hcall
  rw [(signal_run_of_acceptable h hs).2, List.mem_map] at habout
  obtain ⟨d, -, heq⟩ := habout
  rw [← (Prod.mk.inj heq).2] at hrejected
  exact Bool.false_ne_true hrejected

end Recorder

end Waveform
