import Waveform.Proofs.History.Bisection

/-!
# The Fast Lookup is Exact

The bisection ends at a hit (`Block.exists_hit`), but that may be anywhere inside of a block
of changes that share a time, and the walks to both ends of the block make up for it. This
module follows that path.

* `History.exists_blockAt?`: in a history the block around a hit reaches from
  `History.countBefore` to `History.countUpTo` of its time.
* `History.blockAt?_eq`: so the block in effect is that of the last change up to the time
  asked for.
* `History.indexAt?_eq`, `History.inEffect?_eq_lastUpTo?`: so the fast lookup answers with
  the index right below the count of the changes up to the time, and with the last change
  up to the time.
* `History.lookup_exact`: the fast lookup and the scan from the front both answer with the
  change of the greatest index that is not later than the time.
-/

namespace Waveform

namespace History

variable {h : History} {index : Nat} {c : Change}

/-! ### The walks to the ends of a block -/

/-- The changes at a time are those between `countBefore` and `countUpTo`. -/
theorem hasTime_iff (h : History) (time : Time) (index : Nat) :
    Block.hasTime h.changes time index = true ↔
      h.countBefore time ≤ index ∧ index < h.countUpTo time := by
  rw [Block.hasTime, decide_eq_true_eq]
  cases hc : h.changes[index]? with
  | none =>
      have hsize : h.size ≤ index := Array.getElem?_eq_none_iff.mp hc
      have hcount := h.countUpTo_le_size time
      simp only [Option.map_none, reduceCtorEq, false_iff]
      omega
  | some c =>
      have hle := time_le_iff hc time
      have hlt := time_lt_iff hc time
      rw [Option.map_some, Option.some.injEq, ← hle, ← Nat.not_lt, ← hlt]
      exact ⟨fun heq => heq ▸ ⟨Int64.lt_irrefl, Int64.le_refl _⟩,
        fun ⟨hnlt, hle⟩ => Int64.le_antisymm hle (Int64.not_lt.mp hnlt)⟩

/-- Walking back within a block by `startFrom` ends at its first change. -/
theorem startFrom_eq (h : History) (time : Time) {index : Nat}
    (hlow : h.countBefore time ≤ index) (hhigh : index < h.countUpTo time) :
    Block.startFrom h.changes time index = h.countBefore time := by
  induction index with
  | zero => rw [Block.startFrom]; omega
  | succ index ih =>
      rw [Block.startFrom]
      split
      · rename_i hhas
        have hin := (hasTime_iff h time index).mp hhas
        exact ih hin.1 hin.2
      · rename_i hhas
        have hout := mt (hasTime_iff h time index).mpr hhas
        omega

/-- Walking on within a block by `stopFrom` ends behind its last change. -/
theorem stopFrom_eq (h : History) (time : Time) {index : Nat}
    (hlow : h.countBefore time ≤ index) (hhigh : index ≤ h.countUpTo time) :
    Block.stopFrom h.changes time index = h.countUpTo time := by
  have hsize : h.countUpTo time ≤ h.changes.size := h.countUpTo_le_size time
  fun_induction Block.stopFrom h.changes time index with
  | case1 index hlt hhas ih =>
      have hin := (hasTime_iff h time index).mp hhas
      exact ih (by omega) (by omega)
  | case2 index hlt hhas =>
      have hout := mt (hasTime_iff h time index).mpr hhas
      omega
  | case3 index hge => omega

/-- The block that `around` gives for a change holds the changes at its time: those between the
two counts. -/
theorem around_eq (hc : h.get? index = some c) (time : Time) :
    Block.around h.changes time index c =
      { start := h.countBefore c.time
        count := h.countUpTo c.time - h.countBefore c.time
        exact := c.time = time
        nextTime? := (h.get? (h.countUpTo c.time)).map Change.time } := by
  have hhigh : index < h.countUpTo c.time := (time_le_iff hc c.time).mp (Int64.le_refl _)
  have hlow : h.countBefore c.time ≤ index := by
    rw [← Nat.not_lt, ← time_lt_iff hc]
    exact Int64.lt_irrefl
  have hstart := startFrom_eq h c.time hlow hhigh
  have hstop : Block.stopFrom h.changes c.time (h.countBefore c.time + 1) = h.countUpTo c.time :=
    stopFrom_eq h c.time (by omega) (by omega)
  simp only [Block.around, hstart, hstop, get?]

/-! ### The block in effect -/

/-- A hit is in the block in effect: up to its time there are as many changes as up to the
time asked for. -/
theorem countUpTo_of_isHit {time : Time} (hc : h.get? index = some c)
    (hhit : c.time = time ∨ c.time < time ∧ ∀ d, h.get? (index + 1) = some d → time < d.time) :
    h.countUpTo c.time = h.countUpTo time := by
  rcases hhit with rfl | ⟨hlt, hnext⟩
  · rfl
  · have hself : index < h.countUpTo c.time := (time_le_iff hc c.time).mp (Int64.le_refl _)
    have hindex : index < h.countUpTo time := (time_le_iff hc time).mp (Int64.le_of_lt hlt)
    -- nothing behind the hit is up to the time, let alone up to that of the hit
    have hbound : ∀ t, t ≤ time → h.countUpTo t ≤ index + 1 := by
      intro t ht
      refine Nat.not_lt.mp fun hover => ?_
      have hsize := h.countUpTo_le_size t
      obtain ⟨d, hd⟩ : ∃ d, h.get? (index + 1) = some d := exists_get? (by omega)
      have hle := (time_le_iff hd t).mpr (by omega)
      exact absurd (Int64.le_trans hle ht) (Int64.not_le.mpr (hnext d hd))
    have h1 := hbound c.time (Int64.le_of_lt hlt)
    have h2 := hbound time (Int64.le_refl _)
    omega

/-- The first change is up to a time when any is. -/
theorem firstTime?_le_iff {first : Time} (hfirst : h.firstTime? = some first) (time : Time) :
    first ≤ time ↔ 0 < h.countUpTo time := by
  obtain ⟨c, hc, rfl⟩ := Option.map_eq_some_iff.mp hfirst
  exact time_le_iff hc time

/-- Without a change up to the time `blockAt?` finds no block. -/
theorem blockAt?_eq_none {time : Time} (hzero : h.countUpTo time = 0) :
    h.blockAt? time = none := by
  rw [blockAt?]
  cases hfirst : h.firstTime? with
  | none => rfl
  | some first =>
      have hlt : time < first := by
        rw [← Int64.not_le, firstTime?_le_iff hfirst]
        omega
      simp [hlt]

/-- With a change up to the time, `blockAt?` finds the **block in effect**: that of a change
whose time is the greatest of them, and it ends where the changes up to the time end. -/
theorem exists_blockAt? {time : Time} (hpos : 0 < h.countUpTo time) :
    ∃ index c, h.get? index = some c ∧ c.time ≤ time ∧
      h.countUpTo c.time = h.countUpTo time ∧
      h.blockAt? time = some
        { start := h.countBefore c.time
          count := h.countUpTo time - h.countBefore c.time
          exact := c.time = time
          nextTime? := (h.get? (h.countUpTo time)).map Change.time } := by
  have hsize := h.countUpTo_le_size time
  obtain ⟨first, hzero⟩ : ∃ first, h.get? 0 = some first := exists_get? (by omega)
  have hle := (time_le_iff hzero time).mpr hpos
  obtain ⟨index, hindex, ⟨c, hc, hhit⟩, -⟩ := Block.exists_hit hzero hle
  have hcount := countUpTo_of_isHit hc hhit
  have hctime : c.time ≤ time := Block.IsHit.time_le ⟨c, hc, hhit⟩ hc
  refine ⟨index, c, hc, hctime, hcount, ?_⟩
  have hfirst : h.firstTime? = some first.time := Option.map_eq_some_iff.mpr ⟨first, hzero, rfl⟩
  have hget : h.changes[index]? = some c := hc
  simp only [blockAt?, hfirst, if_neg (Int64.not_lt.mpr hle), hindex, hget, Option.map_some,
    around_eq hc time, hcount]

/-- The **block in effect**, by `blockAt?`, is that of the last change up to the time: it reaches
from the first change at the time of that one to the last change up to the time asked for. -/
theorem blockAt?_eq (h : History) (time : Time) :
    h.blockAt? time = (lastUpTo? h.toList time).map fun c =>
      { start := h.countBefore c.time
        count := h.countUpTo time - h.countBefore c.time
        exact := c.time = time
        nextTime? := (h.get? (h.countUpTo time)).map Change.time } := by
  rw [lastUpTo?_toList]
  split
  · rename_i hzero
    rw [blockAt?_eq_none hzero, Option.map_none]
  · rename_i hpos
    have hsize := h.countUpTo_le_size time
    obtain ⟨index, c, hc, -, hcount, hblock⟩ := exists_blockAt? (Nat.pos_of_ne_zero hpos)
    obtain ⟨d, hd⟩ : ∃ d, h.get? (h.countUpTo time - 1) = some d := exists_get? (by omega)
    -- both changes are in the same block, so they have the same time
    have hindex : index < h.countUpTo c.time := (time_le_iff hc c.time).mp (Int64.le_refl _)
    have hself : h.countUpTo time - 1 < h.countUpTo d.time :=
      (time_le_iff hd d.time).mp (Int64.le_refl _)
    have hdc : d.time ≤ c.time := (time_le_iff hd c.time).mpr (by omega)
    have hcd : c.time ≤ d.time := (time_le_iff hc d.time).mpr (by omega)
    rw [hblock, hd, Option.map_some, Int64.le_antisymm hcd hdc]

/-! ### The change in effect -/

/-- The index of the change in effect is right below `countUpTo`. -/
theorem indexAt?_eq (h : History) (time : Time) :
    h.indexAt? time =
      if h.countUpTo time = 0 then none else some (h.countUpTo time - 1) := by
  split
  · rename_i hzero
    rw [indexAt?, blockAt?_eq_none hzero, Option.map_none]
  · rename_i hpos
    obtain ⟨index, c, hc, -, hcount, hblock⟩ := exists_blockAt? (Nat.pos_of_ne_zero hpos)
    have hle := h.countBefore_le_countUpTo c.time
    rw [indexAt?, hblock, Option.map_some, Block.last]
    congr 1
    simp only
    omega

/-- The change **in effect** is the one that `lastUpTo?` finds. -/
theorem inEffect?_eq_lastUpTo? (h : History) (time : Time) :
    h.inEffect? time = lastUpTo? h.toList time := by
  rw [inEffect?, indexAt?_eq, lastUpTo?_toList]
  by_cases hzero : h.countUpTo time = 0
  · simp [hzero]
  · simp [hzero]

/-- The index is the **greatest up to a time**: its change is not later, and no change of a
greater index is up to the time. -/
def IsGreatestUpTo (h : History) (time : Time) (index : Nat) : Prop :=
  (∃ c, h.get? index = some c ∧ c.time ≤ time) ∧
    ∀ i c, h.get? i = some c → c.time ≤ time → i ≤ index

/-- The greatest index up to a time is the one right below `countUpTo`. -/
theorem isGreatestUpTo_iff (h : History) (time : Time) (index : Nat) :
    h.IsGreatestUpTo time index ↔ index + 1 = h.countUpTo time := by
  have hsize := h.countUpTo_le_size time
  constructor
  · rintro ⟨⟨c, hc, hle⟩, hgreatest⟩
    have hlt := (time_le_iff hc time).mp hle
    obtain ⟨d, hlast⟩ : ∃ d, h.get? (h.countUpTo time - 1) = some d := exists_get? (by omega)
    have := hgreatest _ _ hlast ((time_le_iff hlast time).mpr (by omega))
    omega
  · intro heq
    obtain ⟨c, hc⟩ : ∃ c, h.get? index = some c := exists_get? (by omega)
    refine ⟨⟨c, hc, (time_le_iff hc time).mpr (by omega)⟩, ?_⟩
    intro i d hd hle
    have := (time_le_iff hd time).mp hle
    omega

/-- The index that `indexAt?` finds is the greatest up to the time. -/
theorem indexAt?_eq_some_iff (h : History) (time : Time) (index : Nat) :
    h.indexAt? time = some index ↔ h.IsGreatestUpTo time index := by
  rw [indexAt?_eq, isGreatestUpTo_iff]
  split
  · simp only [reduceCtorEq, false_iff]; omega
  · rw [Option.some.injEq]; omega

/-- `indexAt?` finds no index when every change is later. -/
theorem indexAt?_eq_none_iff (h : History) (time : Time) :
    h.indexAt? time = none ↔ ∀ c ∈ h.toList, time < c.time := by
  have hcount : h.indexAt? time = none ↔ h.countUpTo time = 0 := by
    rw [indexAt?_eq]; simp
  rw [hcount, countUpTo, List.countP_eq_zero]
  simp only [decide_eq_true_eq, Int64.not_le]

/-- The change of `lastUpTo?` is the one at the greatest index up to it. -/
theorem lastUpTo?_eq_some_iff (h : History) (time : Time) (c : Change) :
    lastUpTo? h.toList time = some c ↔
      ∃ index, h.IsGreatestUpTo time index ∧ h.get? index = some c := by
  rw [lastUpTo?_toList]
  simp only [isGreatestUpTo_iff]
  split
  · rename_i hzero
    simp only [reduceCtorEq, false_iff]
    rintro ⟨index, hi, -⟩
    omega
  · rename_i hpos
    constructor
    · intro hc
      exact ⟨_, by omega, hc⟩
    · rintro ⟨index, hi, hc⟩
      rwa [← hi, Nat.add_sub_cancel]

/-- The change of `inEffect?` is the one at the greatest index up to the time. -/
theorem inEffect?_eq_some_iff {time : Time} :
    h.inEffect? time = some c ↔
      ∃ index, h.IsGreatestUpTo time index ∧ h.get? index = some c := by
  rw [inEffect?_eq_lastUpTo?, lastUpTo?_eq_some_iff]

/-- **The fast lookup and the scan from the front agree.** The fast lookup `indexAt?` finds the
index for which `IsGreatestUpTo` holds, that of the last change not later than the time, and it
finds nothing exactly when every change is later. Both ways of asking for the change in effect,
`inEffect?` and `scan?`, answer with the change at that index, and with none when there is
none. -/
theorem lookup_exact (h : History) (time : Time) :
    (∀ index, h.indexAt? time = some index ↔ h.IsGreatestUpTo time index) ∧
      (h.indexAt? time = none ↔ ∀ c ∈ h.toList, time < c.time) ∧
      (∀ c, h.inEffect? time = some c ↔
        ∃ index, h.IsGreatestUpTo time index ∧ h.get? index = some c) ∧
      (∀ c, h.scan? time = some c ↔
        ∃ index, h.IsGreatestUpTo time index ∧ h.get? index = some c) := by
  refine ⟨h.indexAt?_eq_some_iff time, h.indexAt?_eq_none_iff time, ?_, ?_⟩
  · intro c
    rw [inEffect?_eq_lastUpTo?, lastUpTo?_eq_some_iff]
  · intro c
    rw [scan?_eq_lastUpTo?, lastUpTo?_eq_some_iff]

end History

end Waveform
