import Waveform.Proofs.History.Order

/-!
# Histories Built from a List

A history is built from a list by offering the changes one after the other, and building
fails at the first that is out of order. This module says what comes of it: building
succeeds exactly for the lists in time order (`History.exists_ofList_iff`), and the history
has the changes of the list and one slot for each of them (`History.ofList_eq_ok_iff`). It
fails with the times at the first descent of the list, whatever comes behind that
(`History.ofList_eq_error_iff`).

The list of a history is always one from which a history with the same changes can be built
(`History.exists_ofList_toList`). Only the slots may be fewer. The main statement,
`History.ofList_exact`, puts the four together.
-/

namespace Waveform

/-- A list **descends** at an index when the change right behind is earlier than the one at the
index. What is wrong there is given by their times. -/
def DescendsAt (changes : List Change) (index : Nat) (why : OutOfOrder) : Prop :=
  ∃ c d, changes[index]? = some c ∧ changes[index + 1]? = some d ∧ d.time < c.time ∧
    why = ⟨c.time, d.time⟩

/-- The **first descent** of a list is at the least index at which it descends. -/
def FirstDescentAt (changes : List Change) (index : Nat) (why : OutOfOrder) : Prop :=
  DescendsAt changes index why ∧ ∀ i why', DescendsAt changes i why' → index ≤ i

namespace History

variable {h h' : History} {c : Change} {changes : List Change} {why : OutOfOrder}

theorem eq_of_toList_eq (hlist : h.toList = h'.toList) (hreserved : h.reserved = h'.reserved) :
    h = h' := by
  obtain ⟨⟨cs⟩, n, _, _⟩ := h
  obtain ⟨⟨cs'⟩, n', _, _⟩ := h'
  obtain rfl : cs = cs' := hlist
  obtain rfl : n = n' := hreserved
  rfl

/-! ### One change -/

/-- `outOfOrder?` objects to nothing when no last change is later. -/
theorem outOfOrder?_eq_none_iff {h : History} {time : Time} :
    h.outOfOrder? time = none ↔ ∀ last, h.toList.getLast? = some last → last.time ≤ time := by
  rw [outOfOrder?, lastTime?_eq_getLast?]
  cases h.toList.getLast? with
  | none => simp
  | some last => simp

/-- `outOfOrder?` objects when there is a last change and that one is later. -/
theorem outOfOrder?_eq_some_iff {h : History} {time : Time} {why : OutOfOrder} :
    h.outOfOrder? time = some why ↔
      ∃ last, h.toList.getLast? = some last ∧ time < last.time ∧ why = ⟨last.time, time⟩ := by
  rw [outOfOrder?, lastTime?_eq_getLast?]
  cases h.toList.getLast? with
  | none => simp
  | some last => simp [eq_comm]

/-- A change is **accepted** when it keeps the list in time order. -/
theorem accepts_iff : h.Accepts c ↔ InTimeOrder (h.toList ++ [c]) := by
  constructor
  · intro ha
    have order := ha.inTimeOrder_push
    rwa [Array.toList_push] at order
  · intro order last hlast
    rw [lastTime?_eq_getLast?] at hlast
    obtain ⟨d, hd, rfl⟩ := Option.map_eq_some_iff.mp hlast
    exact (List.pairwise_append.mp order).2.2 d (List.mem_of_getLast? hd) c (by simp)

/-- A change that is accepted is added by `append`. -/
theorem append_of_accepts (ha : h.Accepts c) : h.append c = .ok (h.push c ha) := by
  refine append_eq_ok_iff.mpr ⟨ha, rfl, ?_⟩
  rw [outOfOrder?]
  cases hlast : h.lastTime? with
  | none => rfl
  | some last => exact if_neg (by simpa using ha last hlast)

/-- While there is room, `append` leaves the slots as they are. -/
theorem reserved_append (hok : h.append c = .ok h') (hroom : h.size < h.reserved) :
    h'.reserved = h.reserved := by
  obtain ⟨ha, rfl, -⟩ := append_eq_ok_iff.mp hok
  exact if_pos hroom

/-! ### A list of changes -/

/-- Changes that are all accepted are added by `appendAll` in their order. -/
theorem toList_appendAll (hok : h.appendAll changes = .ok h') :
    h'.toList = h.toList ++ changes := by
  induction changes generalizing h with
  | nil =>
      obtain rfl : h = h' := by simpa [appendAll] using hok
      rw [List.append_nil]
  | cons c cs ih =>
      rw [appendAll] at hok
      split at hok
      · contradiction
      · rename_i h₁ hc
        rw [ih hok, toList_append hc, List.append_assoc, List.singleton_append]

/-- Changes are all accepted when they keep the list in time order, and only then. -/
theorem exists_appendAll_iff (h : History) (changes : List Change) :
    (∃ h', h.appendAll changes = .ok h') ↔ InTimeOrder (h.toList ++ changes) := by
  constructor
  · rintro ⟨h', hok⟩
    rw [← toList_appendAll hok]
    exact h'.inTimeOrder_toList
  · intro order
    induction changes generalizing h with
    | nil => exact ⟨h, rfl⟩
    | cons c cs ih =>
        rw [← List.singleton_append, ← List.append_assoc] at order
        have ha : h.Accepts c := accepts_iff.mpr (List.pairwise_append.mp order).1
        rw [← toList_push h c ha] at order
        obtain ⟨h', hok⟩ := ih (h.push c ha) order
        refine ⟨h', ?_⟩
        rw [appendAll, append_of_accepts ha]
        exact hok

/-- While there is room for all of them, `appendAll` leaves the slots as they are. -/
theorem reserved_appendAll (hok : h.appendAll changes = .ok h')
    (hroom : h.size + changes.length ≤ h.reserved) : h'.reserved = h.reserved := by
  induction changes generalizing h with
  | nil =>
      obtain rfl : h = h' := by simpa [appendAll] using hok
      rfl
  | cons c cs ih =>
      rw [appendAll] at hok
      rw [List.length_cons] at hroom
      split at hok
      · contradiction
      · rename_i h₁ hc
        have hslots : h₁.reserved = h.reserved := reserved_append hc (by omega)
        have hsize : h₁.size = h.size + 1 := by
          rw [← length_toList, toList_append hc, List.length_append, length_toList,
            List.length_singleton]
        rw [ih hok (by omega), hslots]

/-- When `appendAll` refuses a change of a list, all changes before it were added. -/
theorem exists_of_appendAll_eq_error (herror : h.appendAll changes = .error why) :
    ∃ before d behind h', changes = before ++ d :: behind ∧
      h.appendAll before = .ok h' ∧ h'.append d = .error why := by
  induction changes generalizing h with
  | nil => simp [appendAll] at herror
  | cons c cs ih =>
      rw [appendAll] at herror
      split at herror
      · rename_i why' hc
        obtain rfl : why' = why := Except.error.inj herror
        exact ⟨[], c, cs, h, rfl, rfl, hc⟩
      · rename_i h₁ hc
        obtain ⟨before, d, behind, h', rfl, hok, hd⟩ := ih herror
        refine ⟨c :: before, d, behind, h', rfl, ?_, hd⟩
        rw [appendAll, hc]
        exact hok

/-! ### Descents -/

/-- A list that is `InTimeOrder` does not descend. -/
theorem not_descendsAt (order : InTimeOrder changes) (index : Nat) (why : OutOfOrder) :
    ¬ DescendsAt changes index why := by
  rintro ⟨c, d, hc, hd, hlt, -⟩
  obtain ⟨hi, rfl⟩ := List.getElem?_eq_some_iff.mp hc
  obtain ⟨hj, rfl⟩ := List.getElem?_eq_some_iff.mp hd
  have hle := List.pairwise_iff_getElem.mp order index (index + 1) hi hj (Nat.lt_succ_self index)
  exact Int64.not_le.mpr hlt hle

/-- What is wrong at an index is told by the list. -/
theorem descendsAt_unique {index : Nat} {why' : OutOfOrder} (hwhy : DescendsAt changes index why)
    (hwhy' : DescendsAt changes index why') : why = why' := by
  obtain ⟨c, d, hc, hd, -, rfl⟩ := hwhy
  obtain ⟨c', d', hc', hd', -, rfl⟩ := hwhy'
  obtain rfl : c = c' := Option.some.inj (hc.symm.trans hc')
  obtain rfl : d = d' := Option.some.inj (hd.symm.trans hd')
  rfl

/-- Behind changes in time order, a change that is earlier than the last of them makes the
**first descent** of the list. -/
theorem firstDescentAt_append {init behind : List Change} {last d : Change}
    (order : InTimeOrder (init ++ [last])) (hlt : d.time < last.time) :
    FirstDescentAt (init ++ [last] ++ d :: behind) init.length ⟨last.time, d.time⟩ := by
  refine ⟨⟨last, d, by simp, by simp, hlt, rfl⟩, fun i why' hi => ?_⟩
  refine Nat.not_lt.mp fun hbefore => not_descendsAt order i why' ?_
  obtain ⟨a, b, ha, hb, hab⟩ := hi
  rw [List.getElem?_append_left (by simp; omega)] at ha hb
  exact ⟨a, b, ha, hb, hab⟩

/-! ### Building -/

/-- `ofList` builds a history from exactly the lists **in time order**. -/
theorem exists_ofList_iff : (∃ h, ofList changes = .ok h) ↔ InTimeOrder changes := by
  rw [ofList, exists_appendAll_iff, toList_withSlots, List.nil_append]

/-- The history that `ofList` builds has the changes of the list, and **one slot for each**. -/
theorem ofList_eq_ok_iff :
    ofList changes = .ok h ↔ h.toList = changes ∧ h.reserved = changes.length := by
  have hbuilt : ∀ {h₁}, ofList changes = .ok h₁ →
      h₁.toList = changes ∧ h₁.reserved = changes.length := by
    intro h₁ hok
    refine ⟨?_, reserved_appendAll hok (by simp [withSlots, size])⟩
    rw [toList_appendAll hok, toList_withSlots, List.nil_append]
  refine ⟨hbuilt, ?_⟩
  -- a history is its list and its slots, so the one that is built is the given one
  rintro ⟨hlist, hreserved⟩
  obtain ⟨h₁, hok⟩ := exists_ofList_iff.mpr (hlist ▸ h.inTimeOrder_toList)
  obtain ⟨hlist₁, hreserved₁⟩ := hbuilt hok
  rw [hok, eq_of_toList_eq (hlist₁.trans hlist.symm) (hreserved₁.trans hreserved.symm)]

/-- `ofList` fails at the first descent. -/
theorem exists_firstDescentAt (herror : ofList changes = .error why) :
    ∃ index, FirstDescentAt changes index why := by
  obtain ⟨before, d, behind, h', rfl, hok, hd⟩ := exists_of_appendAll_eq_error herror
  have hlist : h'.toList = before := by
    rw [toList_appendAll hok, toList_withSlots, List.nil_append]
  rw [append_eq_error_iff, outOfOrder?_eq_some_iff, hlist] at hd
  obtain ⟨last, hlast, hlt, rfl⟩ := hd
  obtain ⟨init, rfl⟩ := List.getLast?_eq_some_iff.mp hlast
  exact ⟨init.length, firstDescentAt_append (hlist ▸ h'.inTimeOrder_toList) hlt⟩

/-- `ofList` fails **exactly at the first descent**, and names the two times there. -/
theorem ofList_eq_error_iff :
    ofList changes = .error why ↔ ∃ index, FirstDescentAt changes index why := by
  refine ⟨exists_firstDescentAt, ?_⟩
  rintro ⟨index, hwhy, hleast⟩
  cases hbuilt : ofList changes with
  | ok h => exact absurd hwhy (not_descendsAt (exists_ofList_iff.mp ⟨h, hbuilt⟩) index why)
  | error why' =>
      -- a list has one first descent, so the one that is reported is the given one
      obtain ⟨index', hwhy', hleast'⟩ := exists_firstDescentAt hbuilt
      obtain rfl : index = index' :=
        Nat.le_antisymm (hleast index' why' hwhy') (hleast' index why hwhy)
      rw [descendsAt_unique hwhy hwhy']

/-- The `toList` of a history **builds a history** with the same changes. -/
theorem exists_ofList_toList (h : History) :
    ∃ h', ofList h.toList = .ok h' ∧ h'.toList = h.toList := by
  obtain ⟨h', hok⟩ := exists_ofList_iff.mpr h.inTimeOrder_toList
  exact ⟨h', hok, (ofList_eq_ok_iff.mp hok).1⟩

/-- **A history is built from exactly the lists in time order, and nothing is lost.** `ofList`
succeeds for the lists that are `InTimeOrder`. The history then has the changes of the list. For
any other list it fails with the two times of `FirstDescentAt`, and the changes behind that make
no difference. The list of a history, however it came about, builds a history with the same
changes. -/
theorem ofList_exact :
    (∀ changes, (∃ h, ofList changes = .ok h) ↔ InTimeOrder changes) ∧
      (∀ changes h, ofList changes = .ok h ↔ h.toList = changes ∧ h.reserved = changes.length) ∧
      (∀ changes why,
        ofList changes = .error why ↔ ∃ index, FirstDescentAt changes index why) ∧
      ∀ h : History, ∃ h', ofList h.toList = .ok h' ∧ h'.toList = h.toList :=
  ⟨fun _ => exists_ofList_iff, fun _ _ => ofList_eq_ok_iff, fun _ _ => ofList_eq_error_iff,
    exists_ofList_toList⟩

end History

end Waveform
