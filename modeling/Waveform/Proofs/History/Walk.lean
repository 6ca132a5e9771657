import Mathlib.Data.List.Chain
import Waveform.Proofs.ChangeTimes
import Waveform.Proofs.History.Block

/-!
# Walking through a History

Every block names the time of the next one, so a history can be gone through block by block:
from its first time on, and to the next time for as long as there is one. `History.Walk` is
that iteration, driven by nothing but the answers of the lookup.

At a recorded time the block in effect has the changes at that time and no others
(`Block.StandsAt`). From there one step leads to the next recorded time, and to a block that
starts where the block before it ends (`Block.StandsAt.next`). Where no step is left, all
changes have been seen (`Block.StandsAt.last`).

So a walk comes to an end (`History.exists_walk`). What it has visited by then is the main
statement, `History.walk_visits_every_change`: every change once, and the times of change
that the merge lists for the history alone.
-/

namespace Waveform

/-! ### One step -/

/-- The block **stands at** a time: it has the changes at that time and no others. -/
structure Block.StandsAt (b : Block) (h : History) (time : Time) : Prop where
  exact_eq : b.exact = true
  start_eq : b.start = h.countBefore time
  stop_eq : b.start + b.count = h.countUpTo time
  nextTime?_eq : b.nextTime? = (h.get? (h.countUpTo time)).map Change.time

namespace History

variable {h : History} {time : Time} {b : Block}

/-- The changes up to a time are those **before the next change**, which is at the index
`countUpTo`. -/
theorem countBefore_of_get? {c : Change} (hc : h.get? (h.countUpTo time) = some c) :
    h.countBefore c.time = h.countUpTo time := by
  have hlt : time < c.time := by
    rw [← Int64.not_le, time_le_iff hc]
    exact Nat.lt_irrefl _
  have hle : h.countUpTo time ≤ h.countBefore c.time := by
    refine List.countP_mono_left fun d _ hd => ?_
    simp only [decide_eq_true_eq] at hd ⊢
    exact Int64.lt_of_le_of_lt hd hlt
  refine Nat.le_antisymm ?_ hle
  rw [← Nat.not_lt, ← time_lt_iff hc]
  exact Int64.lt_irrefl

/-- A recorded time has changes of its own. -/
theorem countBefore_lt_countUpTo (htime : time ∈ h.times) :
    h.countBefore time < h.countUpTo time := by
  have hpos : 0 < h.times.count time := List.count_pos_iff.mpr htime
  rw [countUpTo_eq_add]
  omega

/-- At a recorded time `blockAt?` finds a block. -/
theorem exists_blockAt?_of_mem (htime : time ∈ h.times) : ∃ b, h.blockAt? time = some b := by
  rw [← Option.ne_none_iff_exists', ne_eq, blockAt?_eq_none_iff]
  exact fun hlater => Int64.lt_irrefl (hlater time htime)

/-- The block in effect at a recorded time **stands at** that time, as `Block.StandsAt` puts
it. -/
theorem standsAt_of_blockAt? (htime : time ∈ h.times) (hb : h.blockAt? time = some b) :
    b.StandsAt h time := by
  rw [blockAt?_eq] at hb
  obtain ⟨c, hc, rfl⟩ := Option.map_eq_some_iff.mp hb
  -- the latest time up to a recorded one is that one
  have hself : Extreme (· ≥ ·) time (h.times.filter (· ≤ time)) := by
    refine ⟨List.mem_filter.mpr ⟨htime, by simp⟩, fun u hu => ?_⟩
    simpa using (List.mem_filter.mp hu).2
  obtain rfl : c.time = time :=
    (extreme_lastUpTo? hc).unique (fun _ _ => flip Int64.le_antisymm) hself
  exact ⟨decide_eq_true rfl, rfl, Nat.add_sub_of_le (h.countBefore_le_countUpTo _), rfl⟩

end History

namespace Block.StandsAt

variable {h : History} {time later : Time} {b : Block}

/-- **The next time**, `nextTime?`, is the earliest of the later ones, and its block starts where
this one ends. -/
theorem next (hb : b.StandsAt h time) (hlater : b.nextTime? = some later) :
    later ∈ h.times ∧ time < later ∧ (∀ u ∈ h.times, time < u → later ≤ u) ∧
      h.countBefore later = b.start + b.count := by
  rw [hb.nextTime?_eq] at hlater
  obtain ⟨hmem, hleast⟩ := (h.nextTime?_eq_some_iff time later).mp hlater
  obtain ⟨htimes, hlt⟩ := List.mem_filter.mp hmem
  obtain ⟨c, hc, rfl⟩ := Option.map_eq_some_iff.mp hlater
  refine ⟨htimes, by simpa using hlt, fun u hu hul => ?_, ?_⟩
  · exact hleast u (List.mem_filter.mpr ⟨hu, by simpa using hul⟩)
  · rw [History.countBefore_of_get? hc, hb.stop_eq]

/-- **Without a next time** (`nextTime?`) all changes are up to this time. -/
theorem last (hb : b.StandsAt h time) (hnone : b.nextTime? = none) :
    (∀ u ∈ h.times, u ≤ time) ∧ b.start + b.count = h.size := by
  rw [hb.nextTime?_eq] at hnone
  refine ⟨(h.nextTime?_eq_none_iff time).mp hnone, ?_⟩
  have hsize : h.size ≤ h.countUpTo time :=
    Array.getElem?_eq_none_iff.mp (Option.map_eq_none_iff.mp hnone)
  exact hb.stop_eq.trans (Nat.le_antisymm (h.countUpTo_le_size time) hsize)

end Block.StandsAt

/-! ### Walks -/

/-- What a walk comes by: a time, and the block in effect there. -/
structure Visit where
  time : Time
  block : Block

namespace History

/-- A **walk** through a history from a time on: it visits the block that `blockAt?` finds there,
and goes on from its `nextTime?` unless there is none. -/
inductive Walk (h : History) : Time → List Visit → Prop
  | last {time : Time} {b : Block} : h.blockAt? time = some b → b.nextTime? = none →
      Walk h time [⟨time, b⟩]
  | onward {time later : Time} {b : Block} {visits : List Visit} : h.blockAt? time = some b →
      b.nextTime? = some later → Walk h later visits → Walk h time (⟨time, b⟩ :: visits)

variable {h : History} {time : Time} {visits visits' : List Visit}

/-- There is no choice on the way. -/
theorem Walk.unique (hw : h.Walk time visits) (hw' : h.Walk time visits') : visits = visits' := by
  induction hw generalizing visits' with
  | last hb hnone =>
      cases hw' with
      | last hb' _ => rw [Option.some.inj (hb.symm.trans hb')]
      | onward hb' hlater' _ =>
          obtain rfl := Option.some.inj (hb.symm.trans hb')
          rw [hnone] at hlater'
          exact absurd hlater' (by simp)
  | onward hb hlater _ ih =>
      cases hw' with
      | last hb' hnone' =>
          obtain rfl := Option.some.inj (hb.symm.trans hb')
          rw [hnone'] at hlater
          exact absurd hlater (by simp)
      | onward hb' hlater' hrest' =>
          obtain rfl := Option.some.inj (hb.symm.trans hb')
          obtain rfl := Option.some.inj (hlater.symm.trans hlater')
          rw [ih hrest']

/-- **A walk comes to an end**: with every step fewer changes are left behind the block. -/
theorem exists_walk (htime : time ∈ h.times) : ∃ visits, h.Walk time visits := by
  induction hn : h.size - h.countUpTo time using Nat.strongRecOn generalizing time with
  | ind n ih =>
      obtain ⟨b, hb⟩ := exists_blockAt?_of_mem htime
      have hstands := standsAt_of_blockAt? htime hb
      cases hlater : b.nextTime? with
      | none => exact ⟨_, .last hb hlater⟩
      | some later =>
          obtain ⟨hmem, -, -, hstart⟩ := hstands.next hlater
          have hsize := h.countUpTo_le_size later
          have hpos := countBefore_lt_countUpTo hmem
          have hstop := hstands.stop_eq
          have hless : h.size - h.countUpTo later < n := by omega
          obtain ⟨visits, hw⟩ := ih _ hless hmem rfl
          exact ⟨_, .onward hb hlater hw⟩

/-- The first visit is that of the block in effect. -/
theorem Walk.head (hw : h.Walk time visits) :
    ∃ b rest, visits = ⟨time, b⟩ :: rest ∧ h.blockAt? time = some b := by
  cases hw with
  | last hb _ => exact ⟨_, _, rfl, hb⟩
  | onward hb _ _ => exact ⟨_, _, rfl, hb⟩

/-- Every block of a walk is the one in effect at its time, and it stands at that time. -/
theorem Walk.standsAt (hw : h.Walk time visits) (htime : time ∈ h.times) :
    ∀ v ∈ visits, h.blockAt? v.time = some v.block ∧ v.block.StandsAt h v.time := by
  induction hw with
  | last hb _ => exact List.forall_mem_singleton.mpr ⟨hb, standsAt_of_blockAt? htime hb⟩
  | onward hb hlater _ ih =>
      have hstands := standsAt_of_blockAt? htime hb
      exact List.forall_mem_cons.mpr ⟨⟨hb, hstands⟩, ih (hstands.next hlater).1⟩

/-- A walk visits the recorded times **from its first one on**. -/
theorem Walk.mem_map_time_iff (hw : h.Walk time visits) (htime : time ∈ h.times) {u : Time} :
    u ∈ visits.map Visit.time ↔ u ∈ h.times ∧ time ≤ u := by
  induction hw with
  | @last time b hb hnone =>
      have hbound := ((standsAt_of_blockAt? htime hb).last hnone).1
      rw [List.map_singleton, List.mem_singleton]
      constructor
      · rintro rfl
        exact ⟨htime, Int64.le_refl _⟩
      · rintro ⟨hu, hle⟩
        exact Int64.le_antisymm (hbound u hu) hle
  | @onward time later b rest hb hlater _ ih =>
      obtain ⟨hmem, hlt, hleast, -⟩ := (standsAt_of_blockAt? htime hb).next hlater
      rw [List.map_cons, List.mem_cons, ih hmem]
      constructor
      · rintro (rfl | ⟨hu, hle⟩)
        · exact ⟨htime, Int64.le_refl _⟩
        · exact ⟨hu, Int64.le_trans (Int64.le_of_lt hlt) hle⟩
      · rintro ⟨hu, hle⟩
        by_cases heq : time = u
        · exact Or.inl heq.symm
        · exact Or.inr ⟨hu, hleast u hu (Int64.lt_of_le_of_ne hle heq)⟩

/-- A walk goes **forward** in time. -/
theorem Walk.increasing (hw : h.Walk time visits) (htime : time ∈ h.times) :
    (visits.map Visit.time).Pairwise (· < ·) := by
  induction hw with
  | last _ _ => exact List.pairwise_singleton _ _
  | onward hb hlater hrest ih =>
      obtain ⟨hmem, hlt, -, -⟩ := (standsAt_of_blockAt? htime hb).next hlater
      refine List.pairwise_cons.mpr ⟨fun u hu => ?_, ih hmem⟩
      exact Int64.lt_of_lt_of_le hlt ((hrest.mem_map_time_iff hmem).mp hu).2

/-- Each block **starts where the one before it ends**, at the time that that one names. -/
theorem Walk.isChain (hw : h.Walk time visits) (htime : time ∈ h.times) :
    visits.IsChain fun v w => v.block.nextTime? = some w.time ∧
      w.block.start = v.block.start + v.block.count := by
  induction hw with
  | last _ _ => exact List.isChain_singleton _
  | onward hb hlater hrest ih =>
      obtain ⟨hmem, -, -, hstart⟩ := (standsAt_of_blockAt? htime hb).next hlater
      obtain ⟨b', rest, rfl, hb'⟩ := hrest.head
      refine List.isChain_cons_cons.mpr ⟨⟨hlater, ?_⟩, ih hmem⟩
      exact (standsAt_of_blockAt? hmem hb').start_eq.trans hstart

/-- The last block **ends with the history**. -/
theorem Walk.getLast? (hw : h.Walk time visits) (htime : time ∈ h.times) :
    ∃ v, visits.getLast? = some v ∧ v.block.start + v.block.count = h.size := by
  induction hw with
  | last hb hnone =>
      exact ⟨_, rfl, ((standsAt_of_blockAt? htime hb).last hnone).2⟩
  | onward hb hlater _ ih =>
      obtain ⟨v, hv, hend⟩ := ih ((standsAt_of_blockAt? htime hb).next hlater).1
      exact ⟨v, by rw [List.getLast?_cons, hv, Option.getD_some], hend⟩

/-- A walk comes by every index **from that of its first block on**, in order and once. -/
theorem Walk.indices (hw : h.Walk time visits) (htime : time ∈ h.times) :
    (visits.flatMap fun v => List.range' v.block.start v.block.count) =
      List.range' (h.countBefore time) (h.size - h.countBefore time) := by
  induction hw with
  | last hb hnone =>
      have hstands := standsAt_of_blockAt? htime hb
      have hend := (hstands.last hnone).2
      rw [List.flatMap_singleton, ← hstands.start_eq, ← hend, Nat.add_sub_cancel_left]
  | @onward time later b rest hb hlater _ ih =>
      have hstands := standsAt_of_blockAt? htime hb
      obtain ⟨hmem, -, -, hstart⟩ := hstands.next hlater
      have hsize := h.countUpTo_le_size time
      have hstop := hstands.stop_eq
      have hlength : b.count + (h.size - (b.start + b.count)) = h.size - b.start := by omega
      rw [List.flatMap_cons, ih hmem, hstart, ← hstands.start_eq, List.range'_append_1, hlength]

/-- **A walk visits every change once.** From the first time of a history there is one `Walk` and
no other. Each of its blocks is in effect exactly at the time of the visit, the first one starts
with the history, each one starts where the one before it ends, and the last one ends with the
history, so that together they have every index once and in order. The times of the visits are
the `changeTimes` of the history alone. -/
theorem walk_visits_every_change (h : History) (first : Time) (hfirst : h.firstTime? = some first) :
    ∃ visits : List Visit,
      (∀ visits', h.Walk first visits' ↔ visits' = visits) ∧
      (∀ v ∈ visits, h.blockAt? v.time = some v.block ∧ v.block.exact = true) ∧
      (∃ v, visits.head? = some v ∧ v.block.start = 0) ∧
      (visits.IsChain fun v w => v.block.nextTime? = some w.time ∧
        w.block.start = v.block.start + v.block.count) ∧
      (∃ v, visits.getLast? = some v ∧ v.block.start + v.block.count = h.size) ∧
      (visits.flatMap fun v => List.range' v.block.start v.block.count) = List.range h.size ∧
      visits.map Visit.time = changeTimes [h] := by
  obtain ⟨hmem, hleast⟩ := extreme_firstTime? hfirst
  have hzero : h.countBefore first = 0 := by
    rw [← countP_times_lt, List.countP_eq_zero]
    intro u hu
    simpa using hleast u hu
  obtain ⟨visits, hw⟩ := exists_walk hmem
  have hstands := hw.standsAt hmem
  refine ⟨visits, fun visits' => ⟨fun hw' => hw'.unique hw, ?_⟩, fun v hv => ?_, ?_,
    hw.isChain hmem, hw.getLast? hmem, ?_, ?_⟩
  · rintro rfl
    exact hw
  · exact ⟨(hstands v hv).1, (hstands v hv).2.exact_eq⟩
  · obtain ⟨b, rest, rfl, hb⟩ := hw.head
    exact ⟨_, rfl, (standsAt_of_blockAt? hmem hb).start_eq.trans hzero⟩
  · rw [hw.indices hmem, hzero, Nat.sub_zero, List.range_eq_range']
  · refine ChangeTimes.eq_of_mem_iff (hw.increasing hmem) (pairwise_changeTimes _) fun u => ?_
    rw [hw.mem_map_time_iff hmem, mem_changeTimes_iff_exists]
    simp only [List.mem_singleton, exists_eq_left]
    exact and_iff_left_of_imp (hleast u)

/-- Three changes, of which the first two share a time. -/
theorem walk_visits_every_change_tie :
    let h : History :=
      ⟨#[⟨1, .scalar .one⟩, ⟨1, .scalar .x⟩, ⟨4, .scalar .zero⟩], 4, by decide, by decide⟩
    h.firstTime? = some 1 ∧ ∃ visits, h.Walk 1 visits ∧ visits.map Visit.time = [1, 4] ∧
      (visits.flatMap fun v => List.range' v.block.start v.block.count) = [0, 1, 2] := by
  intro h
  have hfirst : h.firstTime? = some 1 := by decide
  obtain ⟨visits, hwalk, -, -, -, -, hindices, htimes⟩ := walk_visits_every_change h 1 hfirst
  have hlist : changeTimes [h] = [1, 4] := by cbv
  exact ⟨hfirst, visits, (hwalk visits).mpr rfl, htimes.trans hlist, hindices⟩

end History

end Waveform
