import Mathlib.Logic.Relation
import Waveform.Proofs.History.Order

/-!
# The Bisection is Safe on any Array

The bisection goes by turns. Each of them reads the change in the middle of a window of
indices and goes on to one half of it (`Block.Turn`), until the change that is read is at the
time asked for, or until the window is empty (`Block.Ends`). A turn and an end are possible
only where all they read is there and nothing is subtracted that is too large.

* `Block.wellFounded_turn`: there is no endless sequence of turns, since each one halves the
  window.
* `Block.Bracket`: the change right before the window is earlier than the time asked for, and
  the one right behind it is later. A turn keeps this (`Block.Bracket.turn`).
* `Block.Bracket.turn_or_ends`: from a bracket there is always a turn or an end, as long as
  the first change is not later than the time.
* `Block.exists_hit`: so the bisection of a whole array ends at a **hit**, a change at the time
  asked for or one right before the first later change.

None of this needs the changes to be in order. The main statement is
`Block.bisection_is_safe`. Only in its last part, that no change is missed between the one
that is found and the time, does the order come in.
-/

open Relation

namespace Waveform

namespace Block

variable {changes : Array Change} {time : Time} {index : Nat}

/-! ### Turns and ends -/

/-- The closed interval of indices that is left to search. It is empty when its lower end is
above the upper one. -/
structure Window where
  lower : Nat
  upper : Nat

namespace Window

/-- The window of all indices of an array. -/
def whole (changes : Array Change) : Window := ⟨0, changes.size - 1⟩

/-- The number of indices in a window. -/
def length (w : Window) : Nat := w.upper + 1 - w.lower

/-- The index at which the bisection reads. It does so unless the window is empty, and then the
difference `upper - lower` is exact. -/
def middle (w : Window) : Nat := w.lower + (w.upper - w.lower) / 2

variable {w : Window}

theorem lower_le_middle : w.lower ≤ w.middle := Nat.le_add_right _ _

theorem middle_le_upper (hle : w.lower ≤ w.upper) : w.middle ≤ w.upper := by
  rw [middle]
  omega

end Window

variable {w w' : Window}

/-- One **turn** of `bisect?`. To go on before the middle, there has to be an index before it. -/
inductive Turn (changes : Array Change) (time : Time) : Window → Window → Prop
  /-- The change in the `middle` is earlier than the time asked for. -/
  | behind {w : Window} {c : Change} : w.lower ≤ w.upper → changes[w.middle]? = some c →
      c.time < time → Turn changes time w ⟨w.middle + 1, w.upper⟩
  /-- The change in the `middle` is later than the time asked for. -/
  | before {w : Window} {c : Change} : w.lower ≤ w.upper → changes[w.middle]? = some c →
      time < c.time → 0 < w.middle → Turn changes time w ⟨w.lower, w.middle - 1⟩

/-- The bisection **ends** at a window without a further `Turn`, and answers with an index. -/
inductive Ends (changes : Array Change) (time : Time) : Window → Nat → Prop
  /-- The change in the `middle` is at the time asked for. -/
  | found {w : Window} {c : Change} : w.lower ≤ w.upper → changes[w.middle]? = some c →
      c.time = time → Ends changes time w w.middle
  /-- The window is empty, and there is an index before it. -/
  | exhausted {w : Window} : w.upper < w.lower → 0 < w.lower → Ends changes time w (w.lower - 1)

/-- `bisect?` goes on as its turns do. -/
theorem bisect?_of_turn (hturn : Turn changes time w w') :
    bisect? changes time w.lower w.upper = bisect? changes time w'.lower w'.upper := by
  cases hturn with
  | behind hle hc hlt =>
      rw [Window.middle] at hc
      rw [bisect?, if_pos hle]
      simp only [hc, if_pos hlt, Window.middle]
  | before hle hc hgt hpos =>
      have hne := (Int64.ne_of_lt hgt).symm
      rw [Window.middle] at hc hpos
      rw [bisect?, if_pos hle]
      simp only [hc, if_neg (Int64.lt_asymm hgt), if_neg hne, if_neg (Nat.ne_of_gt hpos),
        Window.middle]

theorem bisect?_of_turns (hturns : ReflTransGen (Turn changes time) w w') :
    bisect? changes time w.lower w.upper = bisect? changes time w'.lower w'.upper := by
  induction hturns with
  | refl => rfl
  | tail _ hturn ih => exact ih.trans (bisect?_of_turn hturn)

/-- `bisect?` answers as it ends. -/
theorem bisect?_of_ends (hends : Ends changes time w index) :
    bisect? changes time w.lower w.upper = some index := by
  cases hends with
  | found hle hc heq =>
      rw [Window.middle] at hc
      rw [bisect?, if_pos hle]
      simp only [hc, if_neg fun hlt => Int64.ne_of_lt hlt heq, if_pos heq, Window.middle]
  | exhausted hgt hpos =>
      rw [bisect?, if_neg (Nat.not_le_of_lt hgt), if_neg (Nat.ne_of_gt hpos)]

/-- Every `Turn` **halves** the window. -/
theorem length_of_turn (hturn : Turn changes time w w') :
    0 < w.length ∧ 2 * w'.length ≤ w.length := by
  cases hturn with
  | behind hle _ _ => simp only [Window.length, Window.middle]; omega
  | before hle _ _ hpos =>
      simp only [Window.middle] at hpos
      simp only [Window.length, Window.middle]
      omega

/-- There is no endless sequence of `Turn`s. -/
theorem wellFounded_turn (changes : Array Change) (time : Time) :
    WellFounded fun w' w => Turn changes time w w' := by
  refine Subrelation.wf (fun hturn => ?_) (InvImage.wf Window.length Nat.lt_wfRel.wf)
  obtain ⟨hpos, hhalf⟩ := length_of_turn hturn
  change Window.length _ < Window.length _
  omega

/-! ### The bracket -/

/-- A **hit** is a change at the time asked for, or else an earlier one that has a later
one right behind it or is the last of all. -/
def IsHit (changes : Array Change) (time : Time) (index : Nat) : Prop :=
  ∃ c, changes[index]? = some c ∧
    (c.time = time ∨ c.time < time ∧ ∀ d, changes[index + 1]? = some d → time < d.time)

/-- A change for which `IsHit` holds is not later than the time asked for. -/
theorem IsHit.time_le {c : Change} (hhit : IsHit changes time index)
    (hc : changes[index]? = some c) : c.time ≤ time := by
  obtain ⟨c', hc', hnext⟩ := hhit
  obtain rfl : c' = c := Option.some.inj (hc'.symm.trans hc)
  rcases hnext with heq | ⟨hlt, -⟩
  · exact heq ▸ Int64.le_refl _
  · exact Int64.le_of_lt hlt

/-- The invariant of `Turn`. Only the two changes next to the interval matter, which is why it
needs no order among the others. -/
structure Bracket (changes : Array Change) (time : Time) (lower upper : Nat) : Prop where
  upper_lt_size : upper < changes.size
  lower_le : lower ≤ upper + 1
  /-- The change right before the interval is earlier than the time. -/
  before_lt : ∀ i c, lower = i + 1 → changes[i]? = some c → c.time < time
  /-- The change right behind the interval is later than the time. -/
  lt_behind : ∀ c, changes[upper + 1]? = some c → time < c.time

/-- At first all changes are in the window, and so the `Bracket` is there. -/
theorem bracket_whole (hsize : 0 < changes.size) :
    Bracket changes time (Window.whole changes).lower (Window.whole changes).upper := by
  refine ⟨Nat.sub_one_lt_of_lt hsize, Nat.zero_le _, ?_, ?_⟩
  · intro i c hi
    exact absurd hi (Nat.succ_ne_zero i).symm
  · intro c hc
    have hlt := (Array.getElem?_eq_some_iff.mp hc).1
    simp only [Window.whole] at hlt
    omega

/-- **A turn keeps the bracket**: what is read at the `middle` is next to the new window. -/
theorem Bracket.turn (hb : Bracket changes time w.lower w.upper)
    (hturn : Turn changes time w w') : Bracket changes time w'.lower w'.upper := by
  obtain ⟨hupper, hlower, hbefore, hbehind⟩ := hb
  cases hturn with
  | behind hle hc hlt =>
      refine ⟨hupper, Nat.succ_le_succ (Window.middle_le_upper hle), ?_, hbehind⟩
      intro i d hi hd
      obtain rfl : w.middle = i := Nat.succ.inj hi
      rw [hc, Option.some.injEq] at hd
      exact hd ▸ hlt
  | before hle hc hgt hpos =>
      have hmiddle := Window.middle_le_upper hle
      have hlow : w.lower ≤ w.middle := Window.lower_le_middle
      refine ⟨by simp only; omega, by simp only; omega, hbefore, ?_⟩
      intro d hd
      rw [Nat.sub_add_cancel hpos, hc, Option.some.injEq] at hd
      exact hd ▸ hgt

theorem Bracket.turns (hb : Bracket changes time w.lower w.upper)
    (hturns : ReflTransGen (Turn changes time) w w') : Bracket changes time w'.lower w'.upper := by
  induction hturns with
  | refl => exact hb
  | tail _ hturn ih => exact ih.turn hturn

/-! ### Where the bisection ends -/

/-- Before a later change there is an index, since the first change is not later. -/
theorem pos_of_later (first_le : ∀ c, changes[0]? = some c → c.time ≤ time) {c : Change}
    (hc : changes[index]? = some c) (hgt : time < c.time) : 0 < index := by
  refine Nat.pos_of_ne_zero fun hzero => ?_
  exact absurd (first_le c (hzero ▸ hc)) (Int64.not_le.mpr hgt)

/-- From a `Bracket` there is **always a turn or an end**, and an end is at a hit. -/
theorem Bracket.turn_or_ends (hb : Bracket changes time w.lower w.upper)
    (first_le : ∀ c, changes[0]? = some c → c.time ≤ time) :
    (∃ w', Turn changes time w w') ∨
      ∃ index, Ends changes time w index ∧ IsHit changes time index := by
  obtain ⟨hupper, hlower, hbefore, hbehind⟩ := hb
  rcases Nat.lt_or_ge w.upper w.lower with hempty | hle
  · right
    have heq : w.lower = w.upper + 1 := by omega
    have hc : changes[w.upper]? = some changes[w.upper] := Array.getElem?_eq_getElem hupper
    refine ⟨_, .exhausted hempty (by omega), ?_⟩
    rw [heq, Nat.add_sub_cancel]
    exact ⟨_, hc, Or.inr ⟨hbefore _ _ heq hc, hbehind⟩⟩
  · have hmiddle : w.middle < changes.size :=
      Nat.lt_of_le_of_lt (Window.middle_le_upper hle) hupper
    have hc : changes[w.middle]? = some changes[w.middle] := Array.getElem?_eq_getElem hmiddle
    rcases Int64.le_total changes[w.middle].time time with hearlier | hlater
    · rcases Int64.lt_or_eq_of_le hearlier with hlt | heq
      · exact Or.inl ⟨_, .behind hle hc hlt⟩
      · exact Or.inr ⟨_, .found hle hc heq, _, hc, Or.inl heq⟩
    · rcases Int64.lt_or_eq_of_le hlater with hgt | heq
      · exact Or.inl ⟨_, .before hle hc hgt (pos_of_later first_le hc hgt)⟩
      · exact Or.inr ⟨_, .found hle hc heq.symm, _, hc, Or.inl heq.symm⟩

/-- From a `Bracket` the turns lead to an end, and it is at a hit. -/
theorem Bracket.exists_ends (hb : Bracket changes time w.lower w.upper)
    (first_le : ∀ c, changes[0]? = some c → c.time ≤ time) :
    ∃ w' index, ReflTransGen (Turn changes time) w w' ∧ Ends changes time w' index ∧
      IsHit changes time index := by
  induction w using (wellFounded_turn changes time).induction with
  | _ w ih =>
      rcases hb.turn_or_ends first_le with ⟨w', hturn⟩ | ⟨index, hends, hhit⟩
      · obtain ⟨last, index, hturns, hends, hhit⟩ := ih w' hturn (hb.turn hturn)
        exact ⟨last, index, ReflTransGen.head hturn hturns, hends, hhit⟩
      · exact ⟨w, index, ReflTransGen.refl, hends, hhit⟩

theorem forall_le_of_first {first : Change} (hfirst : changes[0]? = some first)
    (hle : first.time ≤ time) : ∀ c, changes[0]? = some c → c.time ≤ time := by
  intro c hc
  rw [hfirst, Option.some.injEq] at hc
  exact hc ▸ hle

/-- The bisection of a `whole` array **ends at a hit**, as long as the first change is not later
than the time asked for. No order is needed for this. -/
theorem exists_hit {first : Change} (hfirst : changes[0]? = some first)
    (hle : first.time ≤ time) :
    ∃ index, hit? changes time = some index ∧ IsHit changes time index ∧
      ∃ w, ReflTransGen (Turn changes time) (Window.whole changes) w ∧
        Ends changes time w index := by
  have hsize : 0 < changes.size := (Array.getElem?_eq_some_iff.mp hfirst).1
  have first_le := forall_le_of_first hfirst hle
  obtain ⟨w, index, hturns, hends, hhit⟩ := (bracket_whole hsize).exists_ends first_le
  refine ⟨index, ?_, hhit, w, hturns, hends⟩
  rw [hit?, if_neg (Nat.ne_of_gt hsize)]
  exact (bisect?_of_turns hturns).trans (bisect?_of_ends hends)

/-! ### Safety -/

/-- A window is **safe** to be searched: what is read from the array is there, and nothing is
subtracted from an index that is smaller. -/
structure Window.Safe (w : Window) (changes : Array Change) (time : Time) : Prop where
  /-- No index beyond the end of the array is ever taken up. -/
  lower_le_size : w.lower ≤ changes.size
  /-- Unless the window is empty, there is a change in the middle. -/
  middle_lt_size : w.lower ≤ w.upper → w.middle < changes.size
  /-- If that is later than the time, there is an index before the `middle`. -/
  middle_pos : w.lower ≤ w.upper →
    ∀ c, changes[w.middle]? = some c → time < c.time → 0 < w.middle
  /-- If the window is empty, there is an index before it. -/
  lower_pos : w.upper < w.lower → 0 < w.lower

theorem Bracket.safe (hb : Bracket changes time w.lower w.upper)
    (first_le : ∀ c, changes[0]? = some c → c.time ≤ time) : w.Safe changes time where
  lower_le_size := Nat.le_trans hb.lower_le hb.upper_lt_size
  middle_lt_size := fun hle => Nat.lt_of_le_of_lt (Window.middle_le_upper hle) hb.upper_lt_size
  middle_pos := fun _ _ hc hgt => pos_of_later first_le hc hgt
  lower_pos := fun hempty => Nat.zero_lt_of_lt hempty

/-- In time order **nothing is missed**: no change is between a hit and the time. -/
theorem IsHit.le_time {c d : Change} (hhit : IsHit changes time index)
    (hc : changes[index]? = some c) (order : InTimeOrder changes.toList)
    (hd : d ∈ changes.toList) (hle : d.time ≤ time) : d.time ≤ c.time := by
  obtain ⟨c', hc', hnext⟩ := hhit
  obtain rfl : c' = c := Option.some.inj (hc'.symm.trans hc)
  rcases hnext with heq | ⟨-, hnext⟩
  · exact heq ▸ hle
  obtain ⟨i, hi⟩ := List.mem_iff_getElem?.mp hd
  rw [← Array.getElem?_toList] at hc
  rcases Nat.lt_or_ge index i with hbehind | hbefore
  · -- the change right behind the hit is later than the time, and so is this one
    have hlt : index + 1 < changes.size :=
      Nat.lt_of_le_of_lt hbehind (List.getElem?_eq_some_iff.mp hi).1
    have he : changes.toList[index + 1]? = some changes[index + 1] := by
      rw [Array.getElem?_toList, Array.getElem?_eq_getElem hlt]
    have hgt := hnext _ (Array.getElem?_toList.symm.trans he)
    exact absurd (Int64.le_trans (order.time_le he hi hbehind) hle) (Int64.not_le.mpr hgt)
  · exact order.time_le hi hc hbefore

/-- **The bisection is safe on any array** that starts with a change not later than the time
asked for, in order or not. Every window that its `Turn`s lead to is `Window.Safe` to be
searched, and there is no endless sequence of turns. They lead to an end, which is what `hit?`
answers with: the index of a change that is not later than the time. If the changes are
`InTimeOrder`, there is none between that change and the time. -/
theorem bisection_is_safe (changes : Array Change) (time : Time) (first : Change)
    (hfirst : changes[0]? = some first) (hle : first.time ≤ time) :
    1 ≤ changes.size ∧
      (∀ w, ReflTransGen (Turn changes time) (Window.whole changes) w → w.Safe changes time) ∧
      (WellFounded fun w' w => Turn changes time w w') ∧
      ∃ index c, hit? changes time = some index ∧ changes[index]? = some c ∧ c.time ≤ time ∧
        (∃ w, ReflTransGen (Turn changes time) (Window.whole changes) w ∧
          Ends changes time w index) ∧
        (InTimeOrder changes.toList →
          ∀ d ∈ changes.toList, ¬ (c.time < d.time ∧ d.time ≤ time)) := by
  have hsize : 0 < changes.size := (Array.getElem?_eq_some_iff.mp hfirst).1
  have first_le := forall_le_of_first hfirst hle
  obtain ⟨index, hindex, hhit, hends⟩ := exists_hit hfirst hle
  have ⟨c, hc, _⟩ := hhit
  refine ⟨hsize, fun w hturns => ((bracket_whole hsize).turns hturns).safe first_le,
    wellFounded_turn changes time, index, c, hindex, hc, hhit.time_le hc, hends, ?_⟩
  rintro order d hd ⟨hlater, hupto⟩
  exact absurd hlater (Int64.not_lt.mpr (hhit.le_time hc order hd hupto))

/-- Three changes in order, of which the last two share a time. -/
theorem bisection_is_safe_tie :
    let changes : Array Change := #[⟨1, .scalar .one⟩, ⟨4, .scalar .x⟩, ⟨4, .scalar .zero⟩]
    changes[0]? = some ⟨1, .scalar .one⟩ ∧ (1 : Time) ≤ 6 ∧ InTimeOrder changes.toList ∧
      ∃ index c, hit? changes 6 = some index ∧ changes[index]? = some c ∧ c.time ≤ 6 ∧
        ∀ d ∈ changes.toList, ¬ (c.time < d.time ∧ d.time ≤ 6) := by
  intro changes
  have order : InTimeOrder changes.toList := by decide
  obtain ⟨-, -, -, index, c, hindex, hc, hle, -, hnone⟩ :=
    bisection_is_safe changes 6 ⟨1, .scalar .one⟩ rfl (by decide)
  exact ⟨rfl, by decide, order, index, c, hindex, hc, hle, hnone order⟩

end Block

end Waveform
