import Mathlib.Data.Nat.Digits.Defs
import Mathlib.Tactic.IntervalCases
import Waveform.Proofs.Bit.Number

/-!
# Doubling Computes the Decimal Numeral

A list of decimal digits denotes a number with the least significant digit first
(`Decimal.value`). Doubling the list and adding a carry doubles the number and adds the
carry, and it keeps the list **canonical** (`Decimal.Canonical`): every digit is at most
nine, and the top digit is not zero, unless zero is the only digit. No step leaves the
range of a byte.

Canonical digits are those of the numeral of their number (`Decimal.toDigits_value`), so
the numeral that comes from doubling is the numeral of the number that the bits denote
(`Decimal.ofBits_eq_toString`).
-/

namespace Waveform.Decimal

/-- The number that digits denote, the least significant first. -/
def value (digits : List UInt8) : Nat := Nat.ofDigits 10 (digits.map UInt8.toNat)

@[simp] theorem value_nil : value [] = 0 := rfl

@[simp] theorem value_cons (d : UInt8) (ds : List UInt8) :
    value (d :: ds) = d.toNat + 10 * value ds := by
  simp [value, Nat.ofDigits_cons]

/-- All digits are decimal. -/
def AllDecimal (digits : List UInt8) : Prop := ∀ d ∈ digits, d.toNat ≤ 9

/-- The digits of a numeral: `AllDecimal`, at least one, and without a leading zero unless that
is all there is. -/
structure Canonical (digits : List UInt8) : Prop where
  allDecimal : AllDecimal digits
  ne_nil : digits ≠ []
  top_ne_zero : digits.getLast? = some 0 → digits = [0]

/-! ### One step of doubling -/

variable {digits : List UInt8} {carry : UInt8}

/-- Doubling a digit and adding a carry stays below twenty. -/
theorem toNat_doubled {d carry : UInt8} (hd : d.toNat ≤ 9) (hcarry : carry.toNat ≤ 1) :
    (d * 2 + carry).toNat = 2 * d.toNat + carry.toNat := by
  rw [UInt8.toNat_add, UInt8.toNat_mul]
  change (d.toNat * 2 % 256 + carry.toNat) % 256 = _
  omega

/-- The digit that is stored is the last digit of the sum. -/
theorem toNat_stored {d carry : UInt8} (hd : d.toNat ≤ 9) (hcarry : carry.toNat ≤ 1) :
    ((d * 2 + carry) % 10).toNat = (2 * d.toNat + carry.toNat) % 10 :=
  (UInt8.toNat_mod _ _).trans (congrArg (· % 10) (toNat_doubled hd hcarry))

/-- The carry out of a digit is the rest of the sum. -/
theorem toNat_carry {d carry : UInt8} (hd : d.toNat ≤ 9) (hcarry : carry.toNat ≤ 1) :
    ((d * 2 + carry) / 10).toNat = (2 * d.toNat + carry.toNat) / 10 :=
  (UInt8.toNat_div _ _).trans (congrArg (· / 10) (toNat_doubled hd hcarry))

/-- The carry out of a digit is at most one. -/
theorem toNat_carry_le {d carry : UInt8} (hd : d.toNat ≤ 9) (hcarry : carry.toNat ≤ 1) :
    ((d * 2 + carry) / 10).toNat ≤ 1 := by
  rw [toNat_carry hd hcarry]
  omega

/-- Doubling the digits doubles their `value` and adds the carry. -/
theorem value_doubleAdd (hdigits : AllDecimal digits) (hcarry : carry.toNat ≤ 1) :
    value (doubleAdd digits carry) = 2 * value digits + carry.toNat := by
  induction digits generalizing carry with
  | nil =>
      rw [doubleAdd]
      split
      · simp
      · rename_i hzero
        have : carry.toNat = 0 := Nat.eq_zero_of_not_pos hzero
        simp [this]
  | cons d ds ih =>
      obtain ⟨hd, hds⟩ := List.forall_mem_cons.mp hdigits
      simp only [doubleAdd, value_cons]
      rw [ih hds (toNat_carry_le hd hcarry), toNat_stored hd hcarry, toNat_carry hd hcarry]
      omega

/-- `doubleAdd` keeps digits decimal. -/
theorem allDecimal_doubleAdd (hdigits : AllDecimal digits) (hcarry : carry.toNat ≤ 1) :
    AllDecimal (doubleAdd digits carry) := by
  induction digits generalizing carry with
  | nil =>
      intro d hd
      rw [doubleAdd] at hd
      split at hd
      · obtain rfl : d = carry := by simpa using hd
        omega
      · simp at hd
  | cons d ds ih =>
      obtain ⟨hd, hds⟩ := List.forall_mem_cons.mp hdigits
      refine List.forall_mem_cons.mpr ⟨?_, ih hds (toNat_carry_le hd hcarry)⟩
      rw [toNat_stored hd hcarry]
      omega

theorem getLast?_singleton_ne_iff {d : UInt8} : [d].getLast? ≠ some 0 ↔ d.toNat ≠ 0 := by
  rw [List.getLast?_singleton, ne_eq, Option.some.injEq, ← UInt8.toNat_inj, UInt8.toNat_zero]

/-- The same for a single digit: either the carry out of it is the new top digit, or it did
not overflow. -/
theorem top_doubleAdd_singleton {d : UInt8} (hd : d.toNat ≤ 9) (hne : d.toNat ≠ 0)
    (hcarry : carry.toNat ≤ 1) : (doubleAdd [d] carry).getLast? ≠ some 0 := by
  simp only [doubleAdd]
  split
  · rename_i hpos
    rw [List.getLast?_cons_cons, getLast?_singleton_ne_iff]
    exact Nat.ne_of_gt hpos
  · rename_i hnone
    have hdiv : ((d * 2 + carry) / 10).toNat = 0 := Nat.eq_zero_of_not_pos hnone
    rw [toNat_carry hd hcarry] at hdiv
    rw [getLast?_singleton_ne_iff, toNat_stored hd hcarry]
    omega

/-- `doubleAdd` keeps a top digit that is not zero from becoming zero. -/
theorem top_doubleAdd (hdigits : AllDecimal digits) (hcarry : carry.toNat ≤ 1)
    (hne : digits ≠ []) (htop : digits.getLast? ≠ some 0) :
    (doubleAdd digits carry).getLast? ≠ some 0 := by
  induction digits generalizing carry with
  | nil => exact absurd rfl hne
  | cons d ds ih =>
      obtain ⟨hd, hds⟩ := List.forall_mem_cons.mp hdigits
      have hcarry' := toNat_carry_le hd hcarry
      cases ds with
      | nil =>
          exact top_doubleAdd_singleton hd (getLast?_singleton_ne_iff.mp htop) hcarry
      | cons e es =>
          have hrest := ih hds hcarry' (List.cons_ne_nil _ _) (by simpa using htop)
          rw [doubleAdd, List.getLast?_cons]
          cases hlast : (doubleAdd (e :: es) ((d * 2 + carry) / 10)).getLast? with
          | none => simp [doubleAdd] at hlast
          | some top =>
              rw [hlast] at hrest
              simpa using hrest

/-- **One step of doubling** keeps digits `Canonical`. -/
theorem Canonical.doubleAdd (hdigits : Canonical digits) (hcarry : carry.toNat ≤ 1) :
    Canonical (doubleAdd digits carry) := by
  obtain ⟨hdecimal, hne, htop⟩ := hdigits
  refine ⟨allDecimal_doubleAdd hdecimal hcarry, ?_, ?_⟩
  · cases digits with
    | nil => exact absurd rfl hne
    | cons d ds => simp [Decimal.doubleAdd]
  · intro hlast
    by_cases hzero : digits.getLast? = some 0
    · obtain rfl := htop hzero
      obtain hc | hc : carry = 0 ∨ carry = 1 := by
        rw [← UInt8.toNat_inj, ← UInt8.toNat_inj]
        change carry.toNat = 0 ∨ carry.toNat = 1
        omega
      · rw [hc]; rfl
      · rw [hc] at hlast; exact absurd hlast (by decide)
    · exact absurd hlast (top_doubleAdd hdecimal hcarry hne hzero)

/-! ### All steps -/

theorem toNat_carryOf (b : Bit) : (carryOf b).toNat = b.toNat := by
  cases b <;> rfl

theorem toNat_carryOf_le (b : Bit) : (carryOf b).toNat ≤ 1 :=
  toNat_carryOf b ▸ b.toNat_le_one

/-- Reading bits by `digitsFrom` keeps digits `Canonical`. -/
theorem Canonical.digitsFrom (hdigits : Canonical digits) (bits : List Bit) :
    Canonical (digitsFrom digits bits) := by
  induction bits generalizing digits with
  | nil => exact hdigits
  | cons b bs ih => exact ih (hdigits.doubleAdd (toNat_carryOf_le b))

/-- Reading bits shifts the `value` to the left by as many places, and adds the `Bit.number` of
the bits. -/
theorem value_digitsFrom (hdigits : Canonical digits) (bits : List Bit) :
    value (digitsFrom digits bits) = value digits * 2 ^ bits.length + Bit.number bits := by
  induction bits generalizing digits with
  | nil => simp [Decimal.digitsFrom, Bit.number]
  | cons b bs ih =>
      have hcarry := toNat_carryOf_le b
      change value (Decimal.digitsFrom (Decimal.doubleAdd digits (carryOf b)) bs) = _
      rw [ih (hdigits.doubleAdd hcarry), value_doubleAdd hdigits.allDecimal hcarry,
        toNat_carryOf, Bit.number, List.length_cons, Nat.pow_succ]
      ring

theorem canonical_zero : Canonical [0] := by
  refine ⟨?_, List.cons_ne_nil _ _, fun _ => rfl⟩
  intro d hd
  obtain rfl : d = 0 := by simpa using hd
  decide

/-- The digits that `digitsOf` gives are `Canonical`. -/
theorem canonical_digitsOf (bits : List Bit) : Canonical (digitsOf bits) :=
  canonical_zero.digitsFrom bits

/-- The `value` of these digits is the `Bit.number` of the bits. -/
theorem value_digitsOf (bits : List Bit) : value (digitsOf bits) = Bit.number bits := by
  rw [digitsOf, value_digitsFrom canonical_zero]
  simp

/-! ### The numeral -/

theorem digitChar_eq {d : UInt8} (hd : d.toNat ≤ 9) : digitChar d = Nat.digitChar d.toNat := by
  rw [digitChar]
  interval_cases d.toNat <;> rfl

/-- Digits with a top digit other than zero denote a positive number. -/
theorem value_pos (hne : digits ≠ []) (htop : digits.getLast? ≠ some 0) : 0 < value digits := by
  induction digits with
  | nil => exact absurd rfl hne
  | cons d ds ih =>
      rw [value_cons]
      cases ds with
      | nil =>
          have hdne := getLast?_singleton_ne_iff.mp htop
          omega
      | cons e es =>
          have := ih (List.cons_ne_nil _ _) (by simpa using htop)
          omega

/-- `Canonical` digits, the most significant first, are those of the **numeral** of their
`value`. -/
theorem toDigits_value (hdigits : Canonical digits) :
    Nat.toDigits 10 (value digits) = digits.reverse.map digitChar := by
  obtain ⟨hdecimal, hne, htop⟩ := hdigits
  induction digits with
  | nil => exact absurd rfl hne
  | cons d ds ih =>
      obtain ⟨hd, hds⟩ := List.forall_mem_cons.mp hdecimal
      cases ds with
      | nil =>
          rw [value_cons, value_nil, Nat.mul_zero, Nat.add_zero, List.reverse_singleton,
            List.map_singleton, digitChar_eq hd, Nat.toDigits_of_lt_base (by omega)]
      | cons e es =>
          have htop' : (e :: es).getLast? ≠ some 0 := by
            intro hzero
            have := htop (by simpa using hzero)
            simp at this
          have hpos := value_pos (List.cons_ne_nil e es) htop'
          have hrest := ih hds (List.cons_ne_nil _ _) fun hzero => absurd hzero htop'
          rw [value_cons, Nat.add_comm,
            ← Nat.toDigits_append_toDigits (by decide) hpos (Nat.lt_succ_of_le hd), hrest,
            Nat.toDigits_of_lt_base (Nat.lt_succ_of_le hd), ← digitChar_eq hd,
            List.reverse_cons (a := d), List.map_append, List.map_singleton]

/-- **The numeral by doubling** is the decimal numeral of the `Bit.number`. -/
theorem ofBits_eq_toString (bits : List Bit) : ofBits bits = toString (Bit.number bits) := by
  rw [ofBits, ← toDigits_value (canonical_digitsOf bits), value_digitsOf,
    Nat.toString_eq_ofList_toDigits]

end Waveform.Decimal
