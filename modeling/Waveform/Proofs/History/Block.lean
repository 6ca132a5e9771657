import Waveform.Proofs.Extent
import Waveform.Proofs.History.Lookup

/-!
# Blocks are Exact

The block in effect is put together from a hit of the bisection and two walks away from it.
`Block.Describes` says what each of its fields has to be without any of that, in terms of
the recorded times alone: which of them is the latest up to the time asked for, how many
are earlier than that one, how many are equal to it, and which is the first behind the time
asked for.

* `History.extreme_lastUpTo?`: the last change up to a time has the latest of the times up
  to it;
* `History.countUpTo_eq_add`: the changes up to a time are those before it and those at it;
* `History.nextTime?_eq_some_iff`: behind the changes up to a time stands one with the
  earliest of the later times.

The main statement, `History.blockAt?_exact`, is that the block in effect is the one and only
block that describes the history at the time asked for. It is missing exactly when all
changes are later.
-/

namespace Waveform

/-- A block **describes** a history at a time, when `latest` is the latest of the recorded
times up to that one. -/
structure Block.Describes (b : Block) (h : History) (time latest : Time) : Prop where
  latest_of_times : Extreme (· ≥ ·) latest (h.times.filter (· ≤ time))
  /-- The block starts behind the changes that are earlier than `latest`. -/
  start_eq : b.start = h.times.countP (· < latest)
  /-- It has the changes at the latest time. -/
  count_eq : b.count = h.times.count latest
  one_le_count : 1 ≤ b.count
  /-- It is exact when `latest` is the time asked for. -/
  exact_iff : b.exact = true ↔ latest = time
  /-- The next time is the earliest of those after the time asked for. -/
  nextTime?_eq_some_iff : ∀ next,
    b.nextTime? = some next ↔ Extreme (· ≤ ·) next (h.times.filter (time < ·))
  /-- There is no next time when there is none after the time asked for. -/
  nextTime?_eq_none_iff : b.nextTime? = none ↔ ∀ t ∈ h.times, t ≤ time
  /-- The `last` change of the block stands right before the end of the block. -/
  last_add_one : b.last + 1 = b.start + b.count
  /-- It is the last of all changes up to the time asked for. -/
  last_add_one_eq : b.last + 1 = h.times.countP (· ≤ time)

namespace Block

/-- A block that has changes has a `last` one. -/
theorem last_add_one_of_pos {b : Block} (hpos : 0 < b.count) : b.last + 1 = b.start + b.count :=
  Nat.sub_add_cancel (Nat.le_trans hpos (Nat.le_add_left _ _))

/-- Only one block describes a history at a time: `Block.Describes` fixes its fields. -/
theorem Describes.unique {h : History} {time latest latest' : Time} {b b' : Block}
    (hb : b.Describes h time latest) (hb' : b'.Describes h time latest') : b = b' := by
  obtain rfl : latest = latest' :=
    hb.latest_of_times.unique (fun _ _ => flip Int64.le_antisymm) hb'.latest_of_times
  obtain ⟨start, count, exact, nextTime?⟩ := b
  obtain ⟨start', count', exact', nextTime?'⟩ := b'
  obtain rfl : start = start' := hb.start_eq.trans hb'.start_eq.symm
  obtain rfl : count = count' := hb.count_eq.trans hb'.count_eq.symm
  obtain rfl : exact = exact' := Bool.eq_iff_iff.mpr (hb.exact_iff.trans hb'.exact_iff.symm)
  obtain rfl : nextTime? = nextTime?' := Option.ext fun next =>
    (hb.nextTime?_eq_some_iff next).trans (hb'.nextTime?_eq_some_iff next).symm
  rfl

end Block

namespace History

variable {h : History} {time latest : Time} {c : Change} {b : Block}

/-! ### Times and counts -/

/-- Of some times, those up to a given one are the **earlier** ones and the **equal** ones. -/
theorem countP_le_eq_add (times : List Time) (time : Time) :
    times.countP (· ≤ time) = times.countP (· < time) + times.count time := by
  induction times with
  | nil => rfl
  | cons t ts ih =>
      rw [List.countP_cons, List.countP_cons, List.count_cons, ih]
      by_cases heq : t = time
      · subst heq
        simp [Int64.lt_irrefl]
        omega
      · have hiff : t ≤ time ↔ t < time :=
          ⟨fun hle => Int64.lt_of_le_of_ne hle heq, Int64.le_of_lt⟩
        simp [hiff, heq]
        omega

/-- The changes up to a time are those **before** it, as `countBefore` says, and those **at**
it. -/
theorem countUpTo_eq_add (h : History) (time : Time) :
    h.countUpTo time = h.countBefore time + h.times.count time := by
  rw [← countP_times_le, ← countP_times_lt, countP_le_eq_add]

/-- Changes are in the order of their indices, so `get?` is monotone in time. -/
theorem time_le_of_index_le {i j : Nat} {d : Change} (hc : h.get? i = some c)
    (hd : h.get? j = some d) (hij : i ≤ j) : c.time ≤ d.time := by
  rw [get?_eq_toList] at hc hd
  exact h.inTimeOrder_toList.time_le hc hd hij

/-- The times **up to** a given one are those of the leading changes. -/
theorem mem_times_upTo_iff {t : Time} :
    t ∈ h.times.filter (· ≤ time) ↔
      ∃ i c, h.get? i = some c ∧ i < h.countUpTo time ∧ c.time = t := by
  rw [List.mem_filter, decide_eq_true_eq, mem_times_iff]
  constructor
  · rintro ⟨⟨i, c, hc, rfl⟩, hle⟩
    exact ⟨i, c, hc, (time_le_iff hc time).mp hle, rfl⟩
  · rintro ⟨i, c, hc, hlt, rfl⟩
    exact ⟨⟨i, c, hc, rfl⟩, (time_le_iff hc time).mpr hlt⟩

/-- The times **after** a given one are those of the changes behind. -/
theorem mem_times_after_iff {t : Time} :
    t ∈ h.times.filter (time < ·) ↔
      ∃ i c, h.get? i = some c ∧ h.countUpTo time ≤ i ∧ c.time = t := by
  rw [List.mem_filter, decide_eq_true_eq, mem_times_iff, ← Int64.not_le]
  constructor
  · rintro ⟨⟨i, c, hc, rfl⟩, hlater⟩
    rw [time_le_iff hc, Nat.not_lt] at hlater
    exact ⟨i, c, hc, hlater, rfl⟩
  · rintro ⟨i, c, hc, hle, rfl⟩
    rw [← Nat.not_lt, ← time_le_iff hc] at hle
    exact ⟨⟨i, c, hc, rfl⟩, hle⟩

/-! ### The latest time up to a given one -/

/-- The change that `lastUpTo?` finds has the **latest** of the times up to it. -/
theorem extreme_lastUpTo? (hc : lastUpTo? h.toList time = some c) :
    Extreme (· ≥ ·) c.time (h.times.filter (· ≤ time)) := by
  obtain ⟨index, hgreatest, hget⟩ := (lastUpTo?_eq_some_iff h time c).mp hc
  rw [isGreatestUpTo_iff] at hgreatest
  refine ⟨mem_times_upTo_iff.mpr ⟨index, c, hget, by omega, rfl⟩, fun t ht => ?_⟩
  obtain ⟨i, d, hd, hlt, rfl⟩ := mem_times_upTo_iff.mp ht
  exact time_le_of_index_le hd hget (by omega)

/-- Up to `latest` there are as many changes as up to the time asked for. -/
theorem countUpTo_of_latest (hlatest : Extreme (· ≥ ·) latest (h.times.filter (· ≤ time))) :
    h.countUpTo latest = h.countUpTo time := by
  obtain ⟨hmem, hgreatest⟩ := hlatest
  have hle : latest ≤ time := by simpa using (List.mem_filter.mp hmem).2
  rw [← countP_times_le, ← countP_times_le]
  refine List.countP_congr fun t ht => ?_
  simp only [decide_eq_true_eq]
  exact ⟨fun htl => Int64.le_trans htl hle,
    fun htt => hgreatest t (List.mem_filter.mpr ⟨ht, by simpa using htt⟩)⟩

/-! ### The first time after a given one -/

/-- The change at the index `countUpTo` has the **earliest** of the times after it. -/
theorem extreme_next (hc : h.get? (h.countUpTo time) = some c) :
    Extreme (· ≤ ·) c.time (h.times.filter (time < ·)) := by
  refine ⟨mem_times_after_iff.mpr ⟨_, c, hc, Nat.le_refl _, rfl⟩, fun t ht => ?_⟩
  obtain ⟨i, d, hd, hle, rfl⟩ := mem_times_after_iff.mp ht
  exact time_le_of_index_le hc hd hle

/-- At the index `countUpTo` stands the one with the earliest of the later times. -/
theorem nextTime?_eq_some_iff (h : History) (time next : Time) :
    (h.get? (h.countUpTo time)).map Change.time = some next ↔
      Extreme (· ≤ ·) next (h.times.filter (time < ·)) := by
  constructor
  · intro hnext
    obtain ⟨c, hc, rfl⟩ := Option.map_eq_some_iff.mp hnext
    exact extreme_next hc
  · intro hnext
    obtain ⟨i, d, hd, hle, -⟩ := mem_times_after_iff.mp hnext.1
    have hsize : i < h.size := (Array.getElem?_eq_some_iff.mp hd).1
    obtain ⟨c, hc⟩ : ∃ c, h.get? (h.countUpTo time) = some c := exists_get? (by omega)
    rw [hc, Option.map_some, Option.some.injEq]
    exact (extreme_next hc).unique (fun _ _ => Int64.le_antisymm) hnext

/-- Nothing stands behind them when no time is later. -/
theorem nextTime?_eq_none_iff (h : History) (time : Time) :
    (h.get? (h.countUpTo time)).map Change.time = none ↔ ∀ t ∈ h.times, t ≤ time := by
  have hlength : h.times.length = h.toList.length := List.length_map _
  have hle := h.countUpTo_le_size time
  have hall : (∀ t ∈ h.times, t ≤ time) ↔ h.countUpTo time = h.times.length := by
    rw [← countP_times_le, List.countP_eq_length]
    simp only [decide_eq_true_eq]
  rw [Option.map_eq_none_iff, get?_eq_toList, List.getElem?_eq_none_iff, hall, hlength]
  rw [← length_toList] at hle
  omega

/-! ### The block in effect -/

/-- The block of `blockAt?` describes the history at the time of the last change up to it. -/
theorem describes_of_blockAt? (hb : h.blockAt? time = some b) :
    ∃ latest, b.Describes h time latest := by
  rw [blockAt?_eq] at hb
  obtain ⟨c, hc, rfl⟩ := Option.map_eq_some_iff.mp hb
  have hlatest := extreme_lastUpTo? hc
  have hsame := countUpTo_of_latest hlatest
  have hadd := h.countUpTo_eq_add c.time
  have hmem : 0 < h.times.count c.time :=
    List.count_pos_iff.mpr (List.mem_filter.mp hlatest.1).1
  have hcount : h.countUpTo time - h.countBefore c.time = h.times.count c.time := by omega
  have hpos : 0 < h.countUpTo time - h.countBefore c.time := by omega
  have hend : h.countBefore c.time + (h.countUpTo time - h.countBefore c.time) =
      h.times.countP (· ≤ time) := by
    rw [countP_times_le]
    omega
  exact ⟨c.time, hlatest, (countP_times_lt h c.time).symm, hcount, hpos, decide_eq_true_iff,
    nextTime?_eq_some_iff h time, nextTime?_eq_none_iff h time, Block.last_add_one_of_pos hpos,
    (Block.last_add_one_of_pos hpos).trans hend⟩

/-- `blockAt?` finds no block exactly when all changes are later. -/
theorem blockAt?_eq_none_iff (h : History) (time : Time) :
    h.blockAt? time = none ↔ ∀ t ∈ h.times, time < t := by
  rw [← Option.map_eq_none_iff, ← indexAt?, indexAt?_eq_none_iff, times, List.forall_mem_map]

/-- **The block in effect is exact in every field.** `blockAt?` finds none exactly when all
changes are later than the time asked for. Otherwise it finds the block for which
`Block.Describes` holds at that time, and there is only one. -/
theorem blockAt?_exact (h : History) (time : Time) :
    (h.blockAt? time = none ↔ ∀ t ∈ h.times, time < t) ∧
      ∀ b, h.blockAt? time = some b ↔ ∃ latest, b.Describes h time latest := by
  refine ⟨h.blockAt?_eq_none_iff time, fun b => ⟨describes_of_blockAt?, ?_⟩⟩
  rintro ⟨latest, hb⟩
  cases hblock : h.blockAt? time with
  | none =>
      have hlater := (h.blockAt?_eq_none_iff time).mp hblock
      obtain ⟨hmem, hle⟩ := List.mem_filter.mp hb.latest_of_times.1
      exact absurd (hlater latest hmem) (Int64.not_lt.mpr (by simpa using hle))
  | some b' =>
      obtain ⟨latest', hb'⟩ := describes_of_blockAt? hblock
      rw [hb.unique hb']

end History

end Waveform
