import Waveform.History.Lookup

/-!
# Positions in Time Order

The changes of a history are in the order of their times, so the changes up to a point in
time are a leading part of the history. How long that part is, is a matter of counting:
`History.countUpTo` counts the changes that are not later than a time, and
`History.countBefore` those that are earlier. Both counts turn questions about times into
questions about indices:

* `History.time_le_iff`: a change is not later than a time exactly when its index is below
  the first count;
* `History.time_lt_iff`: a change is earlier than a time exactly when its index is below
  the second count.

The change in effect is specified without any search, as the last one of a list that is
not later than the time (`lastUpTo?`). For a list in time order it stands right below the
first count (`History.lastUpTo?_toList`), and a scan from the front finds it
(`History.scan?_eq_lastUpTo?`).
-/

namespace Waveform

/-! ### Leading parts -/

/-- A test that is **closed downward** in time: with a change it passes every earlier one,
and every other one of the same time. -/
def ClosedDownward (test : Change → Bool) : Prop :=
  ∀ a b : Change, a.time ≤ b.time → test b = true → test a = true

theorem closedDownward_le (time : Time) : ClosedDownward fun c => c.time ≤ time := by
  intro a b hab hb
  simp only [decide_eq_true_eq] at hb ⊢
  exact Int64.le_trans hab hb

theorem closedDownward_lt (time : Time) : ClosedDownward fun c => c.time < time := by
  intro a b hab hb
  simp only [decide_eq_true_eq] at hb ⊢
  exact Int64.lt_of_le_of_lt hab hb

/-- Behind a change that fails a test `ClosedDownward`, all changes fail it. -/
theorem countP_eq_zero_of_head {test : Change → Bool} (closed : ClosedDownward test)
    {c : Change} {cs : List Change} (order : InTimeOrder (c :: cs)) (hc : ¬ test c = true) :
    cs.countP test = 0 := by
  obtain ⟨hhead, -⟩ := List.pairwise_cons.mp order
  rw [List.countP_eq_zero]
  intro d hd htest
  exact hc (closed c d (hhead d hd) htest)

/-- In a list in time order, the changes that pass a test closed downward come first: the
index of a change tells whether it is one of them. -/
theorem test_iff_lt_countP {test : Change → Bool} (closed : ClosedDownward test)
    {changes : List Change} (order : InTimeOrder changes) {index : Nat} {c : Change}
    (hc : changes[index]? = some c) : test c = true ↔ index < changes.countP test := by
  induction changes generalizing index with
  | nil => simp at hc
  | cons d ds ih =>
      have order' : InTimeOrder ds := (List.pairwise_cons.mp order).2
      by_cases hd : test d = true
      · rw [List.countP_cons_of_pos hd]
        cases index with
        | zero =>
            obtain rfl : d = c := by simpa using hc
            simp [hd]
        | succ index =>
            rw [ih order' (by simpa using hc)]
            omega
      · have hzero := countP_eq_zero_of_head closed order hd
        rw [List.countP_cons_of_neg hd, hzero]
        cases index with
        | zero =>
            obtain rfl : d = c := by simpa using hc
            simp [hd]
        | succ index =>
            rw [ih order' (by simpa using hc), hzero]
            omega

/-- In a list that is `InTimeOrder`, the times go with the indices. -/
theorem InTimeOrder.time_le {changes : List Change} (order : InTimeOrder changes) {i j : Nat}
    {c d : Change} (hc : changes[i]? = some c) (hd : changes[j]? = some d) (hij : i ≤ j) :
    c.time ≤ d.time := by
  have hself := (test_iff_lt_countP (closedDownward_le d.time) order hd).mp
    (decide_eq_true (Int64.le_refl _))
  have hpass := (test_iff_lt_countP (closedDownward_le d.time) order hc).mpr
    (Nat.lt_of_le_of_lt hij hself)
  exact of_decide_eq_true hpass

/-- The changes that pass a test closed downward are a leading part of the list. -/
theorem filter_eq_take_countP {test : Change → Bool} (closed : ClosedDownward test)
    {changes : List Change} (order : InTimeOrder changes) :
    changes.filter test = changes.take (changes.countP test) := by
  induction changes with
  | nil => rfl
  | cons d ds ih =>
      have order' : InTimeOrder ds := (List.pairwise_cons.mp order).2
      by_cases hd : test d = true
      · rw [List.filter_cons_of_pos hd, List.countP_cons_of_pos hd, List.take_succ_cons,
          ih order']
      · have hzero := countP_eq_zero_of_head closed order hd
        rw [List.filter_cons_of_neg hd, List.countP_cons_of_neg hd, ih order', hzero]
        simp

/-! ### The last change up to a time -/

/-- The **last change up to a time**: of the changes that are not later, the one that comes
last in the list. -/
def lastUpTo? (changes : List Change) (time : Time) : Option Change :=
  (changes.filter fun c => c.time ≤ time).getLast?

/-- A change in front of others counts for `lastUpTo?` if none of these does. -/
theorem lastUpTo?_cons (c : Change) (changes : List Change) (time : Time) :
    lastUpTo? (c :: changes) time =
      (lastUpTo? changes time).or (if c.time ≤ time then some c else none) := by
  rw [lastUpTo?, lastUpTo?]
  by_cases hc : c.time ≤ time
  · rw [List.filter_cons_of_pos (by simpa using hc), List.getLast?_cons, if_pos hc]
    cases (changes.filter fun c => c.time ≤ time).getLast? <;> rfl
  · rw [List.filter_cons_of_neg (by simpa using hc), if_neg hc, Option.or_none]

namespace History

/-- The number of changes that are not later than a time. -/
def countUpTo (h : History) (time : Time) : Nat := h.toList.countP fun c => c.time ≤ time

/-- The number of changes that are earlier than a time. -/
def countBefore (h : History) (time : Time) : Nat := h.toList.countP fun c => c.time < time

theorem inTimeOrder_toList (h : History) : InTimeOrder h.toList := h.inTimeOrder

theorem get?_eq_toList (h : History) (index : Nat) : h.get? index = h.toList[index]? := by
  simp [get?, toList]

theorem exists_get? {h : History} {index : Nat} (hlt : index < h.size) :
    ∃ c, h.get? index = some c :=
  ⟨_, Array.getElem?_eq_getElem hlt⟩

theorem countUpTo_le_size (h : History) (time : Time) : h.countUpTo time ≤ h.size :=
  List.countP_le_length

theorem countBefore_le_countUpTo (h : History) (time : Time) :
    h.countBefore time ≤ h.countUpTo time := by
  refine List.countP_mono_left fun c _ hlt => ?_
  simp only [decide_eq_true_eq] at hlt ⊢
  exact Int64.le_of_lt hlt

variable {h : History} {index : Nat} {c : Change}

/-- A time is among the `times` when some change has it. -/
theorem mem_times_iff {time : Time} :
    time ∈ h.times ↔ ∃ index c, h.get? index = some c ∧ c.time = time := by
  constructor
  · intro hmem
    obtain ⟨c, hc, rfl⟩ := List.mem_map.mp hmem
    obtain ⟨index, hget⟩ := List.mem_iff_getElem?.mp hc
    exact ⟨index, c, (h.get?_eq_toList index).trans hget, rfl⟩
  · rintro ⟨index, c, hc, rfl⟩
    rw [get?_eq_toList] at hc
    exact List.mem_map_of_mem (List.mem_of_getElem? hc)

/-- The counts are known when the times are. -/
theorem countP_times_le (h : History) (time : Time) :
    h.times.countP (· ≤ time) = h.countUpTo time := by
  rw [times, List.countP_map, countUpTo]
  rfl

theorem countP_times_lt (h : History) (time : Time) :
    h.times.countP (· < time) = h.countBefore time := by
  rw [times, List.countP_map, countBefore]
  rfl

/-- A change is **not later** than a time when its index is below `countUpTo`. -/
theorem time_le_iff (hc : h.get? index = some c) (time : Time) :
    c.time ≤ time ↔ index < h.countUpTo time := by
  rw [get?_eq_toList] at hc
  have key := test_iff_lt_countP (closedDownward_le time) h.inTimeOrder_toList hc
  simpa only [countUpTo, decide_eq_true_eq] using key

/-- A change is **earlier** than a time when its index is below `countBefore`. -/
theorem time_lt_iff (hc : h.get? index = some c) (time : Time) :
    c.time < time ↔ index < h.countBefore time := by
  rw [get?_eq_toList] at hc
  have key := test_iff_lt_countP (closedDownward_lt time) h.inTimeOrder_toList hc
  simpa only [countBefore, decide_eq_true_eq] using key

/-- The last change up to a time stands right below the index `countUpTo`. -/
theorem lastUpTo?_toList (h : History) (time : Time) :
    lastUpTo? h.toList time =
      if h.countUpTo time = 0 then none else h.get? (h.countUpTo time - 1) := by
  have hsize := h.countUpTo_le_size time
  have htake : h.toList.filter (fun c => c.time ≤ time) = h.toList.take (h.countUpTo time) :=
    filter_eq_take_countP (closedDownward_le time) h.inTimeOrder_toList
  rw [lastUpTo?, htake, List.getLast?_take]
  split
  · rfl
  · rename_i hpos
    obtain ⟨c, hc⟩ : ∃ c, h.get? (h.countUpTo time - 1) = some c := exists_get? (by omega)
    rw [← get?_eq_toList, hc, Option.some_or]

/-! ### The scan from the front -/

/-- `scanFrom`, once it has found a change, keeps it only when no change up to the time
follows. -/
theorem scanFrom_eq {time : Time} {changes : List Change} (order : InTimeOrder changes)
    (found : Option Change) :
    scanFrom time found changes = (lastUpTo? changes time).or found := by
  induction changes generalizing found with
  | nil => simp [scanFrom, lastUpTo?]
  | cons d ds ih =>
      obtain ⟨hhead, order'⟩ := List.pairwise_cons.mp order
      rw [scanFrom]
      split
      · -- the scan stops here, and all that follows is later still
        rename_i hlt
        have hnil : (d :: ds).filter (fun c => c.time ≤ time) = [] := by
          rw [List.filter_eq_nil_iff]
          intro e he
          have hle : d.time ≤ e.time := by
            rcases List.mem_cons.mp he with rfl | he
            · exact Int64.le_refl _
            · exact hhead e he
          simpa using Int64.lt_of_lt_of_le hlt hle
        simp [lastUpTo?, hnil]
      · rename_i hle
        rw [ih order' (some d), lastUpTo?_cons, if_pos (Int64.not_lt.mp hle), Option.or_assoc,
          Option.some_or]

/-- The **scan** from the front, `scan?`, finds the last change up to the time. -/
theorem scan?_eq_lastUpTo? (h : History) (time : Time) :
    h.scan? time = lastUpTo? h.toList time := by
  rw [scan?, scanFrom_eq h.inTimeOrder_toList, Option.or_none]

end History

end Waveform
