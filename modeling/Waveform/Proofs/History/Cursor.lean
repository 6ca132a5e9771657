import Waveform.History
import Waveform.Proofs.History.Order

/-!
# A Cursor Reads Every Change Once

A cursor that is asked for the next change goes on by one, until it is behind the last change
of its history. There it stays (`Cursor.next_cursorAfter`). So after any number of steps it
is known where the cursor is, `History.cursorAfter`: behind as many changes, or behind all of
them if there are not as many.

That place is never beyond the history, so the number of changes ahead is an exact difference
(`History.offset_add_remaining_cursorAfter`). The main statement, `Cursor.take_exact`, says
what is seen on the way, and that nothing more is seen once a step has come back without a
change.
-/

namespace Waveform

namespace History

/-- The cursor **after a number of steps** from the front. -/
def cursorAfter (h : History) (count : Nat) : Cursor := ⟨h, min count h.size⟩

theorem cursorAfter_zero (h : History) : h.cursorAfter 0 = h.cursor := by
  rw [cursorAfter, Nat.zero_min, cursor]

/-- The `offset` of a cursor is within its history, so no change is counted twice and none is
missing. -/
theorem offset_add_remaining_cursorAfter (h : History) (count : Nat) :
    (h.cursorAfter count).offset + (h.cursorAfter count).remaining = h.size :=
  Nat.add_sub_cancel' (Nat.min_le_right count h.size)

theorem remaining_cursorAfter (h : History) (count : Nat) :
    (h.cursorAfter count).remaining = h.size - min count h.size := rfl

/-- The indices without a change are those from the size on. -/
theorem get?_eq_none_iff {h : History} {index : Nat} : h.get? index = none ↔ h.size ≤ index :=
  Array.getElem?_eq_none_iff

end History

namespace Cursor

/-- **One step** of a cursor: `next` sees the change at its place, and goes on unless there is
none. -/
theorem next_cursorAfter (h : History) (count : Nat) :
    (h.cursorAfter count).next = (h.get? count, h.cursorAfter (count + 1)) := by
  rcases Nat.lt_or_ge count h.size with hlt | hge
  · have hget : h.get? count = some h.changes[count] := Array.getElem?_eq_getElem hlt
    have hplace : min count h.size = count := Nat.min_eq_left (Nat.le_of_lt hlt)
    have hnext : min (count + 1) h.size = count + 1 := Nat.min_eq_left hlt
    simp only [next, History.cursorAfter, hplace, hnext, hget]
  · have hnone : h.get? count = none := History.get?_eq_none_iff.mpr hge
    have hplace : min count h.size = h.size := Nat.min_eq_right hge
    have hnext : min (count + 1) h.size = h.size := Nat.min_eq_right (Nat.le_succ_of_le hge)
    have hend : h.get? h.size = none := History.get?_eq_none_iff.mpr (Nat.le_refl _)
    simp only [next, History.cursorAfter, hplace, hnext, hnone, hend]

/-- **Any number of steps** from any place: `take` sees the change at each index. -/
theorem take_cursorAfter (h : History) (start count : Nat) :
    (h.cursorAfter start).take count =
      ((List.range' start count).map fun i => ⟨h.size - min i h.size, h.get? i⟩,
        h.cursorAfter (start + count)) := by
  induction count generalizing start with
  | zero => rfl
  | succ count ih =>
      rw [take, next_cursorAfter]
      simp only [ih, History.remaining_cursorAfter]
      rw [List.range'_succ, List.map_cons, Nat.add_assoc, Nat.add_comm 1 count]

/-- The same as `take_cursorAfter` from the front. -/
theorem take_cursor (h : History) (count : Nat) :
    h.cursor.take count =
      ((List.range count).map fun i => ⟨h.size - min i h.size, h.get? i⟩,
        h.cursorAfter count) := by
  rw [← History.cursorAfter_zero, take_cursorAfter, Nat.zero_add, List.range_eq_range']

/-- A step is known from its index. -/
theorem of_getElem?_take {h : History} {count i : Nat} {s : Step}
    (hs : (h.cursor.take count).1[i]? = some s) :
    i < count ∧ s = ⟨h.size - min i h.size, h.get? i⟩ := by
  rw [take_cursor, List.getElem?_map, Option.map_eq_some_iff] at hs
  obtain ⟨j, hj, rfl⟩ := hs
  obtain ⟨hlt, rfl⟩ := List.getElem?_eq_some_iff.mp hj
  rw [List.length_range] at hlt
  rw [List.getElem_range]
  exact ⟨hlt, rfl⟩

/-- **A cursor reads every change once.** From the front of a history, any number of steps by
`take` sees the change at each index in turn, and none at the indices behind the last change. The
cursor is never beyond the history, so what it announces as `remaining` is exactly the number of
changes that it has not seen. Once a step has seen none, nothing is ahead any more, and no later
step sees anything. -/
theorem take_exact (h : History) (count : Nat) :
    let steps := (h.cursor.take count).1
    let last := (h.cursor.take count).2
    (steps = (List.range count).map fun i => ⟨h.size - min i h.size, h.toList[i]?⟩) ∧
      last.history = h ∧ last.offset + last.remaining = h.size ∧
      last.sizeHint = (h.size - min count h.size, some (h.size - min count h.size)) ∧
      ∀ (i : Nat) (s : Step), steps[i]? = some s → s.change? = none →
        last.remaining = 0 ∧
          ∀ (j : Nat) (s' : Step), i ≤ j → steps[j]? = some s' → s' = ⟨0, none⟩ := by
  intro steps last
  have hlast : last = h.cursorAfter count := congrArg Prod.snd (take_cursor h count)
  refine ⟨?_, hlast ▸ rfl, hlast ▸ h.offset_add_remaining_cursorAfter count, hlast ▸ rfl, ?_⟩
  · simp only [steps, take_cursor, History.get?_eq_toList]
  · intro i s hs hnone
    obtain ⟨hi, rfl⟩ := of_getElem?_take hs
    have hsize : h.size ≤ i := History.get?_eq_none_iff.mp hnone
    refine ⟨?_, fun j s' hij hs' => ?_⟩
    · rw [hlast, History.remaining_cursorAfter, Nat.min_eq_right (by omega), Nat.sub_self]
    · obtain ⟨-, rfl⟩ := of_getElem?_take hs'
      rw [History.get?_eq_none_iff.mpr (by omega), Nat.min_eq_right (by omega), Nat.sub_self]

/-- Four steps through two changes. -/
theorem take_exact_beyond :
    let h : History := ⟨#[⟨1, .scalar .one⟩, ⟨4, .scalar .zero⟩], 4, by decide, by decide⟩
    (h.cursor.take 4).1[2]? = some ⟨0, none⟩ ∧ (h.cursor.take 4).2.remaining = 0 ∧
      ∃ s, (h.cursor.take 4).1[3]? = some s ∧ s = ⟨0, none⟩ := by
  intro h
  have hthird : (h.cursor.take 4).1[2]? = some ⟨0, none⟩ := by rfl
  obtain ⟨s, hfourth⟩ : ∃ s, (h.cursor.take 4).1[3]? = some s := ⟨_, rfl⟩
  obtain ⟨hnothing, hlater⟩ := (take_exact h 4).2.2.2.2 2 _ hthird rfl
  exact ⟨hthird, hnothing, s, hfourth, hlater 3 s (by decide) hfourth⟩

end Cursor

end Waveform
