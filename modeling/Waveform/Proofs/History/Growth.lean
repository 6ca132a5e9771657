import Mathlib.Algebra.BigOperators.Intervals
import Mathlib.Data.Nat.Log
import Mathlib.Order.Bounds.Defs
import Waveform.History
import Waveform.Proofs.History.Building
import Waveform.Proofs.History.Offering

/-!
# How Slots Grow

A full history doubles its slots on the next change, and reserves four of them if it has
fewer. So the slots of a history that began without any are known from the number of its
changes alone: `History.slotsFor` gives them in closed form. One more change keeps the form
(`History.slotsFor_succ`), which is all there is to say about a history that grew from nothing
(`History.GrewFromNothing.push`). A change that is refused reserves nothing.

Slots that were set aside in advance are kept as long as they suffice (`History.Keeps`),
whatever is offered and refused in between (`History.Keeps.offerAll`).
-/

namespace Waveform

namespace History

variable {h h' : History} {c : Change} {slots count : Nat}

/-! ### The closed form -/

/-- The **slots for a number of changes**: none for none, and otherwise the larger one of four
and the least power of two that is not less than the number. -/
def slotsFor (count : Nat) : Nat := if count = 0 then 0 else max 4 (2 ^ Nat.clog 2 count)

theorem slotsFor_of_pos (hpos : 0 < count) : slotsFor count = max 4 (2 ^ Nat.clog 2 count) :=
  if_neg (Nat.ne_of_gt hpos)

/-- The power in the closed form is the **least power of two** that is not less. -/
theorem isLeast_two_pow_clog (count : Nat) :
    IsLeast {power | (∃ e, power = 2 ^ e) ∧ count ≤ power} (2 ^ Nat.clog 2 count) := by
  refine ⟨⟨⟨_, rfl⟩, Nat.le_pow_clog (by decide) count⟩, ?_⟩
  rintro power ⟨⟨e, rfl⟩, hle⟩
  exact Nat.pow_le_pow_right (by decide) (Nat.clog_le_of_le_pow hle)

/-- The slots for one more change: as many as before while there is room, and otherwise as many
as a full history grows to. -/
theorem slotsFor_succ (count : Nat) :
    slotsFor (count + 1) =
      if count < slotsFor count then slotsFor count else grownSlots (slotsFor count) := by
  rcases Nat.eq_zero_or_pos count with rfl | hpos
  · decide
  have hle : count ≤ 2 ^ Nat.clog 2 count := Nat.le_pow_clog (by decide) count
  rw [slotsFor_of_pos hpos, slotsFor_of_pos (Nat.succ_pos count), grownSlots]
  by_cases hfull : 2 ^ Nat.clog 2 count = count
  · -- the number is a power of two itself, and the next power is needed
    have hlt : Nat.clog 2 count < Nat.clog 2 (count + 1) :=
      (Nat.clog_lt_clog_succ_iff (by decide)).mpr hfull
    have hnext : Nat.clog 2 (count + 1) ≤ Nat.clog 2 count + 1 := by
      refine Nat.clog_le_of_le_pow ?_
      rw [Nat.pow_succ, hfull]
      omega
    have hclog : Nat.clog 2 (count + 1) = Nat.clog 2 count + 1 := by omega
    rw [hclog, Nat.pow_succ, hfull]
    split
    · -- there is room for it among the first four slots
      rename_i hroom
      have hsmall : Nat.clog 2 count < 2 := by
        refine (Nat.pow_lt_pow_iff_right (by decide : 1 < 2)).mp ?_
        rw [hfull]
        omega
      have hdouble : count * 2 ≤ 4 :=
        calc count * 2 = 2 ^ (Nat.clog 2 count + 1) := by rw [Nat.pow_succ, hfull]
          _ ≤ 2 ^ 2 := Nat.pow_le_pow_right (by decide) hsmall
      omega
    · omega
  · have hclog : Nat.clog 2 count = Nat.clog 2 (count + 1) :=
      (Nat.clog_eq_clog_succ_iff (by decide)).mpr hfull
    rw [← hclog, if_pos (by omega)]

/-! ### A history that grew from nothing -/

theorem size_push (ha : h.Accepts c) : (h.push c ha).size = h.size + 1 := by
  simp [push, size]

theorem reserved_push (ha : h.Accepts c) : (h.push c ha).reserved = h.slotsAfterAppend := rfl

/-- The slots of a history that **grew from nothing** are the `slotsFor` its changes. -/
def GrewFromNothing (h : History) : Prop := h.reserved = slotsFor h.size

theorem grewFromNothing_empty : empty.GrewFromNothing := rfl

/-- **One more change**, by `push`, keeps the closed form. -/
theorem GrewFromNothing.push (hg : h.GrewFromNothing) (ha : h.Accepts c) :
    (h.push c ha).GrewFromNothing := by
  rw [GrewFromNothing, reserved_push, size_push, slotsFor_succ, slotsAfterAppend, hg]

/-! ### Slots set aside in advance -/

/-- Slots that were set aside are **kept** until `size` is one more than `slots`, and then they
are doubled. -/
def Keeps (h : History) (slots : Nat) : Prop :=
  (h.size ≤ slots → h.reserved = slots) ∧ (h.size = slots + 1 → h.reserved = grownSlots slots)

/-- A history with room for its changes has kept its `reserved` slots. -/
theorem keeps_reserved (h : History) : h.Keeps h.reserved := by
  refine ⟨fun _ => rfl, fun hsize => ?_⟩
  have hle : h.size ≤ h.reserved := h.size_le_reserved
  omega

/-- One more change, by `push`, leaves the slots as they are, or doubles them **if there is none
left**. -/
theorem Keeps.push (hk : h.Keeps slots) (ha : h.Accepts c) : (h.push c ha).Keeps slots := by
  rw [Keeps, reserved_push, size_push, slotsAfterAppend]
  constructor
  · intro hroom
    rw [hk.1 (by omega), if_pos (by omega)]
  · intro hsize
    rw [hk.1 (by omega), if_neg (by omega)]

theorem Keeps.offer (hk : h.Keeps slots) (c : Change) : (h.offer c).1.Keeps slots := by
  rcases h.offer_cases c with ⟨h', hok, hoffer⟩ | ⟨why, -, hoffer⟩
  · obtain ⟨ha, rfl, -⟩ := append_eq_ok_iff.mp hok
    rw [hoffer]
    exact hk.push ha
  · rw [hoffer]
    exact hk

/-- **Whatever is offered** by `offerAll`, slots are kept until they do not suffice any more. -/
theorem Keeps.offerAll (hk : h.Keeps slots) (changes : List Change) :
    (h.offerAll changes).1.Keeps slots := by
  induction changes generalizing h with
  | nil => exact hk
  | cons c cs ih => exact ih (hk.offer c)

/-! ### The footprint -/

/-- The `payloadSize`, in bytes outside of the slots, is that of all vectors together. -/
theorem payloadSize_eq_sum (h : History) :
    h.payloadSize = (h.toList.map fun c => c.value.payloadSize).sum := by
  rw [payloadSize, List.sum_eq_foldr, List.foldr_map]

/-- The **footprint** of a history that grew from nothing. -/
theorem GrewFromNothing.footprint_eq (hg : h.GrewFromNothing) :
    h.footprint = 24 + 32 * slotsFor h.size + (h.toList.map fun c => c.value.payloadSize).sum := by
  rw [footprint, hg, payloadSize_eq_sum]
  rfl

end History

end Waveform
