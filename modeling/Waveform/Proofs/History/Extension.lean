import Waveform.Proofs.History.Lookup

/-!
# Histories that Grow

A history grows at its end, and no change that is added is earlier than the last one that was
there (`History.le_of_added`). Everything that is asked about a time before that last change
therefore has the same answer in the longer history: the number of changes up to the time
(`History.countUpTo_of_added`), the last change up to it (`History.lastUpTo?_of_added`) and
the block in effect with all that is said of it (`History.blockAt?_of_added`).

The time of the last change itself is left out, and has to be. A change that is added may
share it and join its block.
-/

namespace Waveform

namespace History

variable {h h' : History} {added : List Change} {last time : Time}

/-- A change that is **added** is not earlier than the `lastTime?` that was there. -/
theorem le_of_added (hadded : h'.toList = h.toList ++ added) (hlast : h.lastTime? = some last) :
    ∀ c ∈ added, last ≤ c.time := by
  have order := h'.inTimeOrder_toList
  rw [hadded] at order
  rw [lastTime?_eq_getLast?] at hlast
  obtain ⟨d, hd, rfl⟩ := Option.map_eq_some_iff.mp hlast
  intro c hc
  exact (List.pairwise_append.mp order).2.2 d (List.mem_of_getLast? hd) c hc

/-- Before the last time, `countUpTo` counts as many changes as before. -/
theorem countUpTo_of_added (hadded : h'.toList = h.toList ++ added)
    (hlast : h.lastTime? = some last) (htime : time < last) :
    h'.countUpTo time = h.countUpTo time := by
  have hnone : added.countP (fun c => c.time ≤ time) = 0 := by
    rw [List.countP_eq_zero]
    intro c hc
    have hlt := Int64.lt_of_lt_of_le htime (le_of_added hadded hlast c hc)
    simpa using hlt
  rw [countUpTo, hadded, List.countP_append, hnone, Nat.add_zero, countUpTo]

/-- Up to the last time, `countBefore` counts as many changes as before. -/
theorem countBefore_of_added (hadded : h'.toList = h.toList ++ added)
    (hlast : h.lastTime? = some last) (htime : time ≤ last) :
    h'.countBefore time = h.countBefore time := by
  have hnone : added.countP (fun c => c.time < time) = 0 := by
    rw [List.countP_eq_zero]
    intro c hc
    have hle := Int64.le_trans htime (le_of_added hadded hlast c hc)
    simpa using hle
  rw [countBefore, hadded, List.countP_append, hnone, Nat.add_zero, countBefore]

/-- Before the last time, `lastUpTo?` finds the change that it found. -/
theorem lastUpTo?_of_added (hadded : h'.toList = h.toList ++ added)
    (hlast : h.lastTime? = some last) (htime : time < last) :
    lastUpTo? h'.toList time = lastUpTo? h.toList time := by
  have hnone : added.filter (fun c => c.time ≤ time) = [] := by
    rw [List.filter_eq_nil_iff]
    intro c hc
    have hlt := Int64.lt_of_lt_of_le htime (le_of_added hadded hlast c hc)
    simpa using hlt
  rw [lastUpTo?, hadded, List.filter_append, hnone, List.append_nil, lastUpTo?]

/-- Before the last time there is a change that is not up to the time. -/
theorem countUpTo_lt_size (hlast : h.lastTime? = some last) (htime : time < last) :
    h.countUpTo time < h.size := by
  rw [lastTime?_eq_getLast?] at hlast
  obtain ⟨d, hd, rfl⟩ := Option.map_eq_some_iff.mp hlast
  refine Nat.lt_of_le_of_ne (h.countUpTo_le_size time) fun hall => ?_
  have hle := List.countP_eq_length.mp hall d (List.mem_of_getLast? hd)
  exact Int64.not_le.mpr htime (by simpa using hle)

/-- Before the last time, `blockAt?` finds the **block in effect** that it found, with the time
of the next change. -/
theorem blockAt?_of_added (hadded : h'.toList = h.toList ++ added)
    (hlast : h.lastTime? = some last) (htime : time < last) :
    h'.blockAt? time = h.blockAt? time := by
  have hlt : h.countUpTo time < h.toList.length := countUpTo_lt_size hlast htime
  have hnext : h'.get? (h.countUpTo time) = h.get? (h.countUpTo time) := by
    rw [get?_eq_toList, get?_eq_toList, hadded, List.getElem?_append_left hlt]
  rw [blockAt?_eq, blockAt?_eq, lastUpTo?_of_added hadded hlast htime,
    countUpTo_of_added hadded hlast htime, hnext]
  refine Option.map_congr fun c hc => ?_
  have hle : c.time ≤ time := by
    have hmem := List.mem_of_getLast? (Option.mem_def.mp hc)
    simpa using (List.mem_filter.mp hmem).2
  rw [countBefore_of_added hadded hlast (Int64.le_of_lt (Int64.lt_of_le_of_lt hle htime))]

end History

end Waveform
