import Waveform.Proofs.Extent
import Waveform.Proofs.History.Building

/-!
# Changes that are Offered

A history is offered changes one after the other, some of which it refuses, and goes on with
the next. It compares a change with its last one only, so that at first sight the fate of a
change depends on what became of those before it.

It does not. The last time of the history is the latest of all times that were offered, those
of refused changes included, since a refused change is earlier than the last one
(`History.Tracks`). One offer keeps it so (`History.Tracks.offer`) and hence does a run of
offers (`History.Tracks.offerAll`). What can become of an offer is said by
`History.Tracks.offer_cases` in terms of the times that were offered before.

The main statement, `History.offerAll_keeps_weak_records`, is that a change is accepted exactly
when it is a **weak record**, which is to say that no change offered before it is later.
-/

namespace Waveform

namespace History

/-- Offers a change by `append`, and answers whether it was accepted. A history stays as it is
when it refuses a change. -/
def offer (h : History) (c : Change) : History × Except OutOfOrder Unit :=
  match h.append c with
  | .ok h' => (h', .ok ())
  | .error why => (h, .error why)

/-- Offers changes one after the other by `offer`. -/
def offerAll (h : History) : List Change → History × List (Except OutOfOrder Unit)
  | [] => (h, [])
  | c :: cs =>
    let (h', answer) := h.offer c
    let (last, answers) := h'.offerAll cs
    (last, answer :: answers)

/-- The changes that were **accepted**, by the answers to the offers. -/
def accepted (log : List (Change × Except OutOfOrder Unit)) : List Change :=
  (log.filter fun entry => entry.2.isOk).map Prod.fst

@[simp] theorem accepted_cons_ok (c : Change) (log : List (Change × Except OutOfOrder Unit)) :
    accepted ((c, .ok ()) :: log) = c :: accepted log := rfl

@[simp] theorem accepted_cons_error (c : Change) (why : OutOfOrder)
    (log : List (Change × Except OutOfOrder Unit)) :
    accepted ((c, .error why) :: log) = accepted log := rfl

/-- The `lastTime?` of the history **tracks** the latest time that was offered. -/
def Tracks (h : History) (offered : List Change) : Prop :=
  h.lastTime? = Extent.latest? (offered.map Change.time)

variable {h : History} {offered changes : List Change} {c : Change} {k : Nat}

/-! ### One offer -/

/-- A change is accepted and added, or it is refused and the history stays. -/
theorem offer_cases (h : History) (c : Change) :
    (∃ h', h.append c = .ok h' ∧ h.offer c = (h', .ok ())) ∨
      ∃ why, h.append c = .error why ∧ h.offer c = (h, .error why) := by
  rw [offer]
  cases hc : h.append c with
  | ok h' => exact Or.inl ⟨h', rfl, rfl⟩
  | error why => exact Or.inr ⟨why, rfl, rfl⟩

namespace Tracks

/-- What becomes of an offer: a change that is **not earlier than any before** is added, and
any other is refused with the latest time before it. -/
theorem offer_cases (ht : h.Tracks offered) (c : Change) :
    (∃ h', h.offer c = (h', .ok ()) ∧ h'.lastTime? = some c.time ∧
        ∀ d ∈ offered, d.time ≤ c.time) ∨
      ∃ last, h.offer c = (h, .error ⟨last, c.time⟩) ∧ c.time < last ∧
        Extreme (· ≥ ·) last (offered.map Change.time) := by
  rcases h.offer_cases c with ⟨h', hok, hoffer⟩ | ⟨why, herror, hoffer⟩
  · refine Or.inl ⟨h', hoffer, ?_, fun d hd => ?_⟩
    · rw [lastTime?_eq_getLast?, toList_append hok, List.getLast?_concat, Option.map_some]
    · obtain ⟨ha, -, -⟩ := append_eq_ok_iff.mp hok
      have hmem : d.time ∈ offered.map Change.time := List.mem_map_of_mem hd
      cases hlatest : Extent.latest? (offered.map Change.time) with
      | none =>
          rw [Extent.latest?_eq_none_iff.mp hlatest] at hmem
          exact absurd hmem List.not_mem_nil
      | some last =>
          have hbefore := (Extent.latest?_eq_some_iff.mp hlatest).2 _ hmem
          exact Int64.le_trans hbefore (ha last (ht.trans hlatest))
  · rw [append_eq_error_iff, outOfOrder?_eq_some_iff] at herror
    obtain ⟨d, hd, hlt, rfl⟩ := herror
    have hlast : h.lastTime? = some d.time := by
      rw [lastTime?_eq_getLast?, hd, Option.map_some]
    exact Or.inr ⟨d.time, hoffer, hlt, Extent.latest?_eq_some_iff.mp (ht.symm.trans hlast)⟩

/-- **One offer** keeps `Tracks`: a change that is refused is not the latest. -/
theorem offer (ht : h.Tracks offered) (c : Change) :
    (h.offer c).1.Tracks (offered ++ [c]) := by
  rw [Tracks, List.map_append, List.map_singleton]
  rcases ht.offer_cases c with ⟨h', hoffer, hlast, hbefore⟩ | ⟨last, hoffer, hlt, hlatest⟩
  · -- a change that is added is the latest so far
    rw [hoffer, hlast, eq_comm, Extent.latest?_eq_some_iff]
    refine ⟨List.mem_concat_self, List.forall_mem_append.mpr ⟨?_, ?_⟩⟩
    · exact List.forall_mem_map.mpr hbefore
    · exact List.forall_mem_singleton.mpr (Int64.le_refl _)
  · -- one that is refused is not, so the latest stays what it was
    rw [hoffer, ht, Extent.latest?_eq_some_iff.mpr hlatest, eq_comm,
      Extent.latest?_eq_some_iff]
    refine ⟨List.mem_append_left _ hlatest.1, List.forall_mem_append.mpr ⟨hlatest.2, ?_⟩⟩
    exact List.forall_mem_singleton.mpr (Int64.le_of_lt hlt)

/-- A change is **accepted** exactly when none before it is later. -/
theorem accepted_iff (ht : h.Tracks offered) (c : Change) :
    (h.offer c).2 = .ok () ↔ ∀ d ∈ offered, d.time ≤ c.time := by
  rcases ht.offer_cases c with ⟨h', hoffer, -, hbefore⟩ | ⟨last, hoffer, hlt, hmem, -⟩
  · rw [hoffer]
    exact iff_of_true rfl hbefore
  · obtain ⟨d, hd, rfl⟩ := List.mem_map.mp hmem
    rw [hoffer]
    simp only [reduceCtorEq, false_iff]
    intro hbefore
    exact Int64.not_le.mpr hlt (hbefore d hd)

/-- A change is **refused** exactly when the latest time before it is later, and the refusal
names that time and its own. -/
theorem refused_iff (ht : h.Tracks offered) (c : Change) (why : OutOfOrder) :
    (h.offer c).2 = .error why ↔ why.time = c.time ∧ c.time < why.last ∧
      Extreme (· ≥ ·) why.last (offered.map Change.time) := by
  rcases ht.offer_cases c with ⟨h', hoffer, -, hbefore⟩ | ⟨last, hoffer, hlt, hlatest⟩
  · rw [hoffer]
    simp only [reduceCtorEq, false_iff]
    rintro ⟨-, hlt, hmem, -⟩
    obtain ⟨d, hd, hlast⟩ := List.mem_map.mp hmem
    exact Int64.not_le.mpr hlt (hlast ▸ hbefore d hd)
  · rw [hoffer, Except.error.injEq]
    constructor
    · rintro rfl
      exact ⟨rfl, hlt, hlatest⟩
    · rintro ⟨htime, -, hlatest'⟩
      obtain ⟨last', time'⟩ := why
      obtain rfl : last = last' := hlatest.unique (fun _ _ => flip Int64.le_antisymm) hlatest'
      obtain rfl : time' = c.time := htime
      rfl

end Tracks

/-! ### A run of offers -/

/-- **A run of offers** keeps `Tracks`. -/
theorem Tracks.offerAll (ht : h.Tracks offered) (changes : List Change) :
    (h.offerAll changes).1.Tracks (offered ++ changes) := by
  induction changes generalizing h offered with
  | nil => rwa [List.append_nil]
  | cons c cs ih =>
      rw [← List.singleton_append, ← List.append_assoc]
      exact ih (ht.offer c)

/-- Every offer of `offerAll` is answered by the history that the offers before it have led
to. -/
theorem getElem?_answers (h : History) (changes : List Change) (k : Nat) :
    (h.offerAll changes).2[k]? =
      changes[k]?.map fun c => ((h.offerAll (changes.take k)).1.offer c).2 := by
  induction changes generalizing h k with
  | nil => rfl
  | cons c cs ih =>
      cases k with
      | zero => rfl
      | succ k => exact ih (h.offer c).1 k

/-- The history behind one more offer. -/
theorem offerAll_take_succ (h : History) (hc : changes[k]? = some c) :
    (h.offerAll (changes.take (k + 1))).1 = ((h.offerAll (changes.take k)).1.offer c).1 := by
  induction changes generalizing h k with
  | nil => simp at hc
  | cons d ds ih =>
      cases k with
      | zero =>
          obtain rfl : d = c := by simpa using hc
          rfl
      | succ k => exact ih (h.offer d).1 (by simpa using hc)

theorem length_answers (h : History) (changes : List Change) :
    (h.offerAll changes).2.length = changes.length := by
  induction changes generalizing h with
  | nil => rfl
  | cons c cs ih => exact congrArg Nat.succ (ih (h.offer c).1)

/-- The history gets the changes that were accepted, in the order in which they were
offered. -/
theorem toList_offerAll (h : History) (changes : List Change) :
    (h.offerAll changes).1.toList =
      h.toList ++ accepted (changes.zip (h.offerAll changes).2) := by
  induction changes generalizing h with
  | nil => exact (List.append_nil _).symm
  | cons c cs ih =>
      rcases h.offer_cases c with ⟨h', hok, hoffer⟩ | ⟨why, -, hoffer⟩
      · simp only [offerAll, hoffer, List.zip_cons_cons, accepted_cons_ok]
        rw [ih h', toList_append hok, List.append_assoc, List.singleton_append]
      · simp only [offerAll, hoffer, List.zip_cons_cons, accepted_cons_error]
        exact ih h

/-- An empty history has nothing to keep track of, whatever its `slots`. -/
theorem tracks_nil (slots : Nat) : (withSlots slots).Tracks [] := rfl

/-- **What survives a run of offers is exactly the weak records.** An empty history is offered
changes one after the other by `offerAll`, and answers every one. A change is accepted exactly
when no change offered before it is later, whether that one was accepted or not. A refusal,
`OutOfOrder`, names the time of the change and the latest of all times offered before it, and
leaves the history as it was. In the end the history has the changes that were accepted in the
order in which they were offered, and they are `InTimeOrder`. -/
theorem offerAll_keeps_weak_records (slots : Nat) (changes : List Change) :
    let run := (withSlots slots).offerAll
    let answers := (run changes).2
    answers.length = changes.length ∧
      (∀ k c, changes[k]? = some c →
        (answers[k]? = some (.ok ()) ↔ ∀ d ∈ changes.take k, d.time ≤ c.time) ∧
        ∀ why, answers[k]? = some (.error why) ↔ why.time = c.time ∧ c.time < why.last ∧
          Extreme (· ≥ ·) why.last ((changes.take k).map Change.time)) ∧
      (∀ k why, answers[k]? = some (.error why) →
        (run (changes.take (k + 1))).1 = (run (changes.take k)).1) ∧
      (run changes).1.toList = accepted (changes.zip answers) ∧
      InTimeOrder (accepted (changes.zip answers)) := by
  intro run answers
  have hlist : (run changes).1.toList = accepted (changes.zip answers) :=
    toList_offerAll (withSlots slots) changes
  refine ⟨length_answers _ changes, fun k c hc => ?_, fun k why hwhy => ?_, hlist,
    hlist ▸ (run changes).1.inTimeOrder_toList⟩
  · have ht : (run (changes.take k)).1.Tracks (changes.take k) :=
      (tracks_nil slots).offerAll (changes.take k)
    have hanswer : answers[k]? = some ((run (changes.take k)).1.offer c).2 := by
      rw [getElem?_answers, hc, Option.map_some]
    simp only [hanswer, Option.some.injEq]
    exact ⟨ht.accepted_iff c, ht.refused_iff c⟩
  · rw [getElem?_answers] at hwhy
    obtain ⟨c, hc, hanswer⟩ := Option.map_eq_some_iff.mp hwhy
    rw [offerAll_take_succ _ hc]
    rcases (run (changes.take k)).1.offer_cases c with ⟨h', -, hoffer⟩ | ⟨why', -, hoffer⟩
    · rw [hoffer] at hanswer
      exact absurd hanswer (by simp)
    · rw [hoffer]

/-- Four offers, of which the second and the last are refused. The third ties with the first. -/
theorem offerAll_keeps_weak_records_tie :
    let changes : List Change :=
      [⟨5, .scalar .one⟩, ⟨3, .vector []⟩, ⟨5, .scalar .x⟩, ⟨4, .real default⟩]
    let run := (withSlots 0).offerAll
    (run changes).2[2]? = some (.ok ()) ∧ (run changes).2[3]? = some (.error ⟨5, 4⟩) ∧
      (run (changes.take 4)).1 = (run (changes.take 3)).1 := by
  intro changes run
  have hlaws := offerAll_keeps_weak_records 0 changes
  have hlast : (run changes).2[3]? = some (.error ⟨5, 4⟩) :=
    ((hlaws.2.1 3 ⟨4, .real default⟩ rfl).2 ⟨5, 4⟩).mpr
      ⟨rfl, by decide, by simp [changes], by simp [changes]⟩
  exact ⟨(hlaws.2.1 2 ⟨5, .scalar .x⟩ rfl).1.mpr (by decide), hlast,
    hlaws.2.2.1 3 ⟨5, 4⟩ hlast⟩

end History

end Waveform
