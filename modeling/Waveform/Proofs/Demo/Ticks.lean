import Waveform.Demo.Testbench
import Waveform.Proofs.ChangeTimes
import Waveform.Proofs.History.Order

/-!
# Ticks

Evenly spaced times are listed by a loop that goes from one time to the next and stops when it
has passed the last one, or when there is no later time at all. What it lists is known place by
place: no time is missing, and none wraps around (`Testbench.getElem?_ticks`). From this follow
the members of the list, its order and its length.

To look at the ticks up to some time is to list them up to that time only
(`Testbench.filter_ticks`). So the change in effect is known if there is one for each tick
(`Testbench.lastUpTo?_map_ticks`).
-/

namespace Waveform

namespace Testbench

variable {skipped step index : Nat} {start last next time : Time}

/-! ### The loop -/

theorem later?_eq_none_iff {units : Nat} :
    later? time units = none ↔ Int64.maxValue.toInt < time.toInt + units := by
  rw [later?]
  simp

/-! The three ways on from a time: it is past the last one, it has no later one, or the loop
goes on from there. -/

theorem ticksFrom_of_lt {times : Array Time} (hlt : last < next) :
    ticksFrom skipped last next times = times := by
  rw [ticksFrom, if_pos hlt]

theorem ticksFrom_of_none {times : Array Time} (hle : ¬last < next)
    (hnone : later? next (skipped + 1) = none) :
    ticksFrom skipped last next times = times.push next := by
  rw [ticksFrom, if_neg hle]
  split
  · rfl
  · rename_i later hlater
    rw [hnone] at hlater
    contradiction

theorem ticksFrom_of_some {times : Array Time} {later : Time} (hle : ¬last < next)
    (hsome : later? next (skipped + 1) = some later) :
    ticksFrom skipped last next times = ticksFrom skipped last later (times.push next) := by
  rw [ticksFrom, if_neg hle]
  split
  · rename_i hnone
    rw [hsome] at hnone
    contradiction
  · rename_i later' hlater
    rw [Option.some.inj (hsome.symm.trans hlater)]

/-- The first place is that of the time at which the loop stands. -/
theorem eq_iff_zero_steps {t : Time} (hle : ¬last < next) :
    some next = some t ↔ t.toInt = next.toInt + (0 : Nat) * (skipped + 1) ∧ t ≤ last := by
  rw [Option.some.injEq, ← Int64.toInt_inj]
  rw [Int64.lt_iff_toInt_lt] at hle
  rw [Int64.le_iff_toInt_le]
  omega

/-- **What the loop adds** is in its place: the times that are reached from `next` by steps and
are not later than the last one. -/
theorem exists_ticksFrom (skipped : Nat) (last next : Time) (times : Array Time) :
    ∃ ticks, (ticksFrom skipped last next times).toList = times.toList ++ ticks ∧
      ∀ (k : Nat) (t : Time), ticks[k]? = some t ↔
        t.toInt = next.toInt + k * (skipped + 1) ∧ t ≤ last := by
  have hsteps : ∀ k : Nat, 0 ≤ (k : Int) * (skipped + 1) := fun k =>
    Int.mul_nonneg (by omega) (by omega)
  have hmore : ∀ k : Nat,
      ((k + 1 : Nat) : Int) * (skipped + 1) = k * (skipped + 1) + (skipped + 1) :=
    fun k => by rw [Int.natCast_add, Int.add_mul, Int.natCast_one, Int.one_mul]
  induction next, times using ticksFrom.induct skipped last with
  | case1 next times hlt =>
      refine ⟨[], by rw [ticksFrom_of_lt hlt, List.append_nil], fun k t => ?_⟩
      have hk := hsteps k
      rw [Int64.lt_iff_toInt_lt] at hlt
      rw [Int64.le_iff_toInt_le, List.getElem?_nil]
      simp only [reduceCtorEq, false_iff]
      omega
  | case2 next times hle hnone =>
      refine ⟨[next], by rw [ticksFrom_of_none hle hnone, Array.toList_push], fun k t => ?_⟩
      cases k with
      | zero => exact eq_iff_zero_steps hle
      | succ k =>
          -- another tick would be beyond the last time there is
          have hk := hsteps k
          have hmax := t.toInt_le
          rw [later?_eq_none_iff] at hnone
          rw [hmore, List.getElem?_cons_succ, List.getElem?_nil]
          simp only [reduceCtorEq, false_iff]
          omega
  | case3 next times hle later hsome ih =>
      obtain ⟨ticks, hticks, hplaces⟩ := ih
      refine ⟨next :: ticks, ?_, fun k t => ?_⟩
      · rw [ticksFrom_of_some hle hsome, hticks, Array.toList_push, ← List.append_cons]
      cases k with
      | zero => exact eq_iff_zero_steps hle
      | succ k =>
          have hlater := toInt_later hsome
          have hsum : later.toInt + k * (skipped + 1) =
              next.toInt + ((k + 1 : Nat) : Int) * (skipped + 1) := by
            rw [hmore]
            omega
          rw [List.getElem?_cons_succ, hplaces, hsum]

/-! ### What is listed -/

/-- The **ticks** from a first time on: the times up to a last one that are later by a multiple
of the step. -/
def ticks (start : Time) (step : Nat) (last : Time) : List Time :=
  (ticksFrom (step - 1) last start #[]).toList

theorem multiples_eq_ticks (step : Nat) (last : Time) : multiples step last = ticks 0 step last :=
  rfl

theorem ticks_of_lt (hlt : last < start) : ticks start step last = [] := by
  rw [ticks, ticksFrom_of_lt hlt]

/-- **The ticks are in their places**, up to the last time. None of them wraps around. -/
theorem getElem?_ticks (hstep : 0 < step) :
    (ticks start step last)[index]? = some time ↔
      time.toInt = start.toInt + index * step ∧ time ≤ last := by
  obtain ⟨times, htimes, hplaces⟩ := exists_ticksFrom (step - 1) last start #[]
  have hsucc : ((step - 1 : Nat) : Int) + 1 = step := by omega
  rw [ticks, htimes, List.nil_append, hplaces, hsucc]

/-- There is a `Time` for every number between two times. -/
theorem exists_toInt_eq {n : Int} (hstart : start.toInt ≤ n) (hlast : n ≤ last.toInt) :
    ∃ time : Time, time.toInt = n := by
  have hmin := start.le_toInt
  have hmax := last.toInt_lt
  exact ⟨Int64.ofInt n, Int64.toInt_ofInt_of_le (by omega) (by omega)⟩

theorem mem_ticks_iff (hstep : 0 < step) :
    time ∈ ticks start step last ↔
      start ≤ time ∧ time ≤ last ∧ (step : Int) ∣ time.toInt - start.toInt := by
  simp only [List.mem_iff_getElem?, getElem?_ticks hstep, Int64.le_iff_toInt_le]
  constructor
  · rintro ⟨k, hk, hlast⟩
    have hnonneg : 0 ≤ (k : Int) * step := Int.mul_nonneg (by omega) (by omega)
    exact ⟨by omega, hlast, ⟨k, by rw [hk, Int.mul_comm]; omega⟩⟩
  · rintro ⟨hstart, hlast, k, hk⟩
    have hpos : (0 : Int) < step := by omega
    have hnonneg : 0 ≤ k := by
      refine Int.le_of_mul_le_mul_left ?_ hpos
      omega
    refine ⟨k.toNat, ?_, hlast⟩
    rw [Int.toNat_of_nonneg hnonneg, Int.mul_comm]
    omega

/-- The ticks that `ticks` lists are **strictly increasing**. -/
theorem pairwise_ticks (hstep : 0 < step) (start last : Time) :
    (ticks start step last).Pairwise (· < ·) := by
  rw [List.pairwise_iff_getElem]
  intro i j hi hj hij
  obtain ⟨hiTime, -⟩ := (getElem?_ticks hstep).mp (List.getElem?_eq_getElem hi)
  obtain ⟨hjTime, -⟩ := (getElem?_ticks hstep).mp (List.getElem?_eq_getElem hj)
  have hmul : (i : Int) * step < j * step :=
    Int.mul_lt_mul_of_pos_right (by omega) (by omega)
  rw [Int64.lt_iff_toInt_lt]
  omega

/-- A place is taken when its time is not too late. -/
theorem lt_length_ticks_iff (hstep : 0 < step) :
    index < (ticks start step last).length ↔ start.toInt + index * step ≤ last.toInt := by
  constructor
  · intro hlt
    obtain ⟨htime, hlast⟩ := (getElem?_ticks hstep).mp (List.getElem?_eq_getElem hlt)
    rw [Int64.le_iff_toInt_le] at hlast
    omega
  · intro hle
    have hnonneg : 0 ≤ (index : Int) * step := Int.mul_nonneg (by omega) (by omega)
    have hstart : start.toInt ≤ start.toInt + index * step := by omega
    obtain ⟨time, htime⟩ := exists_toInt_eq hstart hle
    have hlast : time ≤ last := by rw [Int64.le_iff_toInt_le, htime]; exact hle
    exact (List.getElem?_eq_some_iff.mp ((getElem?_ticks hstep).mpr ⟨htime, hlast⟩)).1

/-- **The number of ticks**, which is zero if `start` is later than `last`. -/
theorem length_ticks (hstep : 0 < step) (start last : Time) :
    ((ticks start step last).length : Int) =
      max 0 ((last.toInt - start.toInt) / step + 1) := by
  have hplace : ∀ index : Nat, index < (ticks start step last).length ↔
      (index : Int) ≤ (last.toInt - start.toInt) / step := by
    intro index
    rw [lt_length_ticks_iff hstep, Int.le_ediv_iff_mul_le (by omega)]
    omega
  have hend := hplace (ticks start step last).length
  have hbefore := hplace ((ticks start step last).length - 1)
  omega

/-- **The last of the ticks** is less than a `step` away from `last`. -/
theorem exists_getLast?_ticks (hstep : 0 < step) (hle : start ≤ last) :
    ∃ tick, (ticks start step last).getLast? = some tick ∧
      tick.toInt = start.toInt + (last.toInt - start.toInt) / step * step := by
  rw [Int64.le_iff_toInt_le] at hle
  have hquotient : 0 ≤ (last.toInt - start.toInt) / step :=
    Int.ediv_nonneg (by omega) (by omega)
  have hnonneg : 0 ≤ (last.toInt - start.toInt) / step * step :=
    Int.mul_nonneg hquotient (by omega)
  have hproduct := Int.ediv_mul_le (last.toInt - start.toInt) (b := step) (by omega)
  have hfrom : start.toInt ≤ start.toInt + (last.toInt - start.toInt) / step * step := by omega
  have hupTo : start.toInt + (last.toInt - start.toInt) / step * step ≤ last.toInt := by omega
  obtain ⟨tick, htick⟩ := exists_toInt_eq hfrom hupTo
  have hlength := length_ticks hstep start last
  have hindex : (((ticks start step last).length - 1 : Nat) : Int) =
      (last.toInt - start.toInt) / step := by omega
  refine ⟨tick, ?_, htick⟩
  rw [List.getLast?_eq_getElem?, getElem?_ticks hstep, hindex, Int64.le_iff_toInt_le]
  exact ⟨htick, htick ▸ hupTo⟩

/-! ### Looking at ticks -/

theorem toInt_min (a b : Time) : (min a b).toInt = min a.toInt b.toInt := by
  have hmin : min a b = if a ≤ b then a else b := rfl
  by_cases hle : a ≤ b
  · rw [hmin, if_pos hle]
    rw [Int64.le_iff_toInt_le] at hle
    omega
  · rw [hmin, if_neg hle]
    rw [Int64.le_iff_toInt_le] at hle
    omega

/-- The `ticks` **up to a time** are those of which that time, or the last one, is the last. -/
theorem filter_ticks (hstep : 0 < step) (start last time : Time) :
    (ticks start step last).filter (· ≤ time) = ticks start step (min last time) := by
  refine ChangeTimes.eq_of_mem_iff ((pairwise_ticks hstep start last).filter _)
    (pairwise_ticks hstep start (min last time)) fun tick => ?_
  rw [List.mem_filter, decide_eq_true_eq, mem_ticks_iff hstep, mem_ticks_iff hstep,
    Std.LawfulOrderInf.le_min_iff]
  exact ⟨fun ⟨⟨hstart, hlast, hsteps⟩, hle⟩ => ⟨hstart, ⟨hlast, hle⟩, hsteps⟩,
    fun ⟨hstart, ⟨hlast, hle⟩, hsteps⟩ => ⟨⟨hstart, hlast, hsteps⟩, hle⟩⟩

/-- Changes for the `ticks` are `InTimeOrder`. -/
theorem inTimeOrder_map_ticks (hstep : 0 < step) {change : Time → Change}
    (htime : ∀ tick, (change tick).time = tick) (start last : Time) :
    InTimeOrder ((ticks start step last).map change) := by
  refine List.pairwise_map.mpr ((pairwise_ticks hstep start last).imp fun {a b} hlt => ?_)
  rw [htime, htime]
  exact Int64.le_of_lt hlt

/-- When there is a change for every tick, `lastUpTo?` finds that of the last tick up to the
time. -/
theorem lastUpTo?_map_ticks (hstep : 0 < step) {change : Time → Change}
    (htime : ∀ tick, (change tick).time = tick) (start last time : Time) :
    lastUpTo? ((ticks start step last).map change) time =
      (ticks start step (min last time)).getLast?.map change := by
  have hfilter : (fun c => decide (c.time ≤ time)) ∘ change = fun tick => decide (tick ≤ time) := by
    funext tick
    rw [Function.comp_apply, htime]
  rw [lastUpTo?, List.filter_map, hfilter, filter_ticks hstep, List.getLast?_map]

end Testbench

end Waveform
