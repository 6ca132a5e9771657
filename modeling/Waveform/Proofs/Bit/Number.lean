import Mathlib.Algebra.BigOperators.Intervals
import Waveform.Reading

/-!
# The Number that Bits Denote

A list of bits denotes a natural number in the positional system with base two: the most
significant bit comes first, a strong one counts with the weight of its position, and any
other state counts nothing. `Bit.positional` is that sum, taken over positions, and
`Bit.number` is the same number by recursion on the list (`Bit.positional_eq_number`).

The word of a narrow vector is this number, with no bit lost (`Reading.toNat_wordOfBits`).
-/

namespace Waveform

namespace Bit

/-- The number that the first `width` bits denote, as a **sum over positions**: the strong
one at position `i` counts `2 ^ (width - 1 - i)`. -/
def positional (bits : List Bit) (width : Nat) : Nat :=
  ∑ i ∈ Finset.range width with bits[i]? = some one, 2 ^ (width - 1 - i)

/-- The **number** that bits denote, the first bit being the most significant. Only `Bit.one`
counts. -/
def number : List Bit → Nat
  | [] => 0
  | b :: bs => b.toNat * 2 ^ bs.length + number bs

theorem toNat_le_one (b : Bit) : b.toNat ≤ 1 := by
  cases b <;> decide

/-- The sum over all positions of a list is its `number`. -/
theorem positional_length (bits : List Bit) : positional bits bits.length = number bits := by
  induction bits with
  | nil => rfl
  | cons b bs ih =>
      have hshift : ∀ i ∈ Finset.range bs.length,
          (if (b :: bs)[i + 1]? = some one then 2 ^ (bs.length + 1 - 1 - (i + 1)) else 0) =
            if bs[i]? = some one then 2 ^ (bs.length - 1 - i) else 0 := by
        intro i _
        rw [List.getElem?_cons_succ, Nat.add_sub_cancel, Nat.add_comm i 1, Nat.sub_add_eq]
      have hhead : (if (b :: bs)[0]? = some one then 2 ^ (bs.length + 1 - 1 - 0) else 0) =
          b.toNat * 2 ^ bs.length := by
        cases b <;> simp [toNat]
      rw [positional, Finset.sum_filter, List.length_cons, Finset.sum_range_succ',
        Finset.sum_congr rfl hshift, hhead, ← Finset.sum_filter, ← positional, ih, number,
        Nat.add_comm]

/-- Positions from the width on do not count. -/
theorem positional_eq_number {bits : List Bit} {width : Nat} (hlen : width ≤ bits.length) :
    positional bits width = number (bits.take width) := by
  have hwidth : (bits.take width).length = width := List.length_take_of_le hlen
  rw [← positional_length, hwidth, positional, positional]
  refine Finset.sum_congr (Finset.filter_congr fun i hi => ?_) fun _ _ => rfl
  rw [List.getElem?_take_of_lt (Finset.mem_range.mp hi)]

/-! ### How far the number tells bits apart -/

/-- As many bits denote a number below that power of two. -/
theorem number_lt (bits : List Bit) : number bits < 2 ^ bits.length := by
  induction bits with
  | nil => exact Nat.one_pos
  | cons b bs ih =>
      have hle : b.toNat * 2 ^ bs.length ≤ 1 * 2 ^ bs.length :=
        Nat.mul_le_mul_right _ b.toNat_le_one
      rw [number, List.length_cons, Nat.pow_succ]
      omega

/-- Bits in front of others count with the weight that those leave over. -/
theorem number_append (bits more : List Bit) :
    number (bits ++ more) = number bits * 2 ^ more.length + number more := by
  induction bits with
  | nil => simp [number]
  | cons b bs ih =>
      rw [List.cons_append, number, number, ih, List.length_append, Nat.pow_add, Nat.add_mul,
        Nat.mul_assoc, Nat.add_assoc]

/-- The **leading bits** denote what is left of the `number` without the weights of the
others. -/
theorem number_take (bits : List Bit) (width : Nat) :
    number (bits.take width) = number bits / 2 ^ (bits.length - width) := by
  have hdrop : number (bits.drop width) < 2 ^ (bits.length - width) :=
    List.length_drop ▸ number_lt (bits.drop width)
  have hsplit : number bits =
      number (bits.take width) * 2 ^ (bits.length - width) + number (bits.drop width) := by
    conv_lhs => rw [← List.take_append_drop width bits, number_append, List.length_drop]
  rw [hsplit, Nat.mul_comm, Nat.mul_add_div (Nat.two_pow_pos _), Nat.div_eq_of_lt hdrop,
    Nat.add_zero]

/-- A leading bit and a number below its `weight` can be told from their sum. -/
theorem toNat_mul_add_eq_iff {b b' : Bit} {weight n n' : Nat} (hn : n < weight)
    (hn' : n' < weight) :
    b.toNat * weight + n = b'.toNat * weight + n' ↔ (b = one ↔ b' = one) ∧ n = n' := by
  rw [toNat, toNat]
  by_cases hb : b = one
  · by_cases hb' : b' = one
    · simp [hb, hb']
    · have hne : weight + n ≠ n' := by omega
      simp [hb, hb', hne]
  · by_cases hb' : b' = one
    · have hne : n ≠ weight + n' := by omega
      simp [hb, hb', hne]
    · simp [hb, hb']

/-- **As many bits denote the same number** exactly when their strong ones are at the same
positions. -/
theorem number_eq_iff {bits bits' : List Bit} (hlen : bits.length = bits'.length) :
    number bits = number bits' ↔ ∀ i : Nat, bits[i]? = some one ↔ bits'[i]? = some one := by
  induction bits generalizing bits' with
  | nil =>
      obtain rfl : bits' = [] := List.length_eq_zero_iff.mp hlen.symm
      simp
  | cons b bs ih =>
      cases bits' with
      | nil => simp at hlen
      | cons b' bs' =>
          have hlen' : bs.length = bs'.length := Nat.succ.inj hlen
          have hlt' : number bs' < 2 ^ bs.length := hlen' ▸ number_lt bs'
          rw [number, number, ← hlen', toNat_mul_add_eq_iff (number_lt bs) hlt', ih hlen']
          refine Iff.trans ?_ Nat.and_forall_add_one
          rw [List.getElem?_cons_zero, List.getElem?_cons_zero, Option.some.injEq,
            Option.some.injEq]
          exact Iff.rfl

/-- Binary bits of the same `number` are the same, if there are as many. -/
theorem eq_of_number_eq {bits bits' : List Bit} (hlen : bits.length = bits'.length)
    (hbits : ∀ b ∈ bits, b = zero ∨ b = one) (hbits' : ∀ b ∈ bits', b = zero ∨ b = one)
    (hnumber : number bits = number bits') : bits = bits' := by
  have hones := (number_eq_iff hlen).mp hnumber
  refine List.ext_getElem hlen fun i hi hi' => ?_
  have hone := hones i
  rw [List.getElem?_eq_getElem hi, List.getElem?_eq_getElem hi', Option.some.injEq,
    Option.some.injEq] at hone
  rcases hbits _ (List.getElem_mem hi) with hzero | hset
  · rcases hbits' _ (List.getElem_mem hi') with hzero' | hset'
    · rw [hzero, hzero']
    · rw [hone.mpr hset', hset']
  · rw [hset, hone.mp hset]

end Bit

/-! ### Words -/

namespace Reading

/-- The weight of a bit at position `n` in a word. -/
theorem toNat_weight {n : Nat} (hn : n < 64) :
    ((1 : UInt64) <<< UInt64.ofNat n).toNat = 2 ^ n := by
  have hpow : 2 ^ n < 2 ^ 64 := Nat.pow_lt_pow_right (by decide) hn
  have hmod : (UInt64.ofNat n).toNat % 64 = n := by
    rw [UInt64.toNat_ofNat_of_lt' (Nat.lt_trans hn (by decide)), Nat.mod_eq_of_lt hn]
  rw [UInt64.toNat_shiftLeft, hmod, UInt64.toNat_one, Nat.one_shiftLeft,
    Nat.mod_eq_of_lt hpow]

/-- Setting a bit of a `word` below those that may be set already adds its weight. -/
theorem toNat_or_weight {word : UInt64} {n : Nat} (hn : n < 64)
    (hword : 2 ^ (n + 1) ∣ word.toNat) :
    (word ||| (1 : UInt64) <<< UInt64.ofNat n).toNat = word.toNat + 2 ^ n := by
  obtain ⟨k, hk⟩ := hword
  have hlt : 2 ^ n < 2 ^ (n + 1) := Nat.pow_lt_pow_right (by decide) (Nat.lt_succ_self n)
  rw [UInt64.toNat_or, toNat_weight hn, hk, ← Nat.two_pow_add_eq_or_of_lt hlt]

/-- The **word** of a narrow vector, by `wordOfBits`: all weights of the bits are free in the
word, and each is set at most once. -/
theorem toNat_wordOfBits_add {word : UInt64} {bits : List Bit} (hlen : bits.length ≤ 64)
    (hword : 2 ^ bits.length ∣ word.toNat) :
    (wordOfBits word bits).toNat = word.toNat + Bit.number bits := by
  induction bits generalizing word with
  | nil => rfl
  | cons b bs ih =>
      rw [List.length_cons] at hlen hword
      have hnext : 2 ^ bs.length ∣ word.toNat :=
        Nat.dvd_trans (Nat.pow_dvd_pow 2 (Nat.le_succ _)) hword
      rw [wordOfBits]
      by_cases hb : b = .one
      · have hset := toNat_or_weight (by omega) hword
        rw [if_pos hb, ih (by omega) (hset ▸ Nat.dvd_add hnext (Nat.dvd_refl _)), hset,
          Bit.number, Bit.toNat, if_pos hb]
        omega
      · rw [if_neg hb, ih (by omega) hnext, Bit.number, Bit.toNat, if_neg hb]
        omega

/-- The word of at most `wordWidth` bits is their `number`. -/
theorem toNat_wordOfBits {bits : List Bit} (hlen : bits.length ≤ wordWidth) :
    (wordOfBits 0 bits).toNat = Bit.number bits := by
  rw [toNat_wordOfBits_add hlen (by simp), UInt64.toNat_zero, Nat.zero_add]

end Reading

end Waveform
