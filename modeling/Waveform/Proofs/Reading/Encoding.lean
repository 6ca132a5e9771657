import Waveform.Proofs.Reading.Vector

/-!
# Numbers are Read as They Were Written

A number is written as a vector of its low bits (`Value.ofNat`) and read back from the leading
bits of a vector (`Reading.ofVector`). The writer counts positions from the right and the
reader from the left, so it matters to both of them how many bits there are:

* `Bit.number_lowBits`: to write fewer bits than the number has drops the high ones;
* `Bit.number_take`: to read fewer bits than were written drops the low ones;
* `Bit.lowBits_number`: binary bits are the low bits of their own number.

The main statement, `Reading.ofVector_inverts_ofNat`, puts these together for the decoder on
both sides of the width of a machine word.
-/

namespace Waveform

namespace Bit

/-- The **low bits** of a number, most significant first. -/
def lowBits (n width : Nat) : List Bit :=
  (List.range width).reverse.map fun i => if n.testBit i then one else zero

@[simp] theorem length_lowBits (n width : Nat) : (lowBits n width).length = width := by
  simp [lowBits]

/-- One more bit goes in front of the others. -/
theorem lowBits_succ (n width : Nat) :
    lowBits n (width + 1) = (if n.testBit width then one else zero) :: lowBits n width := by
  rw [lowBits, List.range_succ, List.reverse_concat, List.map_cons, lowBits]

theorem toNat_ite (p : Bool) : (if p then one else zero).toNat = p.toNat := by
  cases p <;> rfl

/-- The low bits of a number are binary. -/
theorem eq_zero_or_one_of_mem_lowBits {n width : Nat} :
    ∀ b ∈ lowBits n width, b = zero ∨ b = one := by
  intro b hb
  obtain ⟨i, -, rfl⟩ := List.mem_map.mp hb
  split
  · exact Or.inr rfl
  · exact Or.inl rfl

/-- The `lowBits` denote the number **modulo the power of two** of their width. -/
theorem number_lowBits (n width : Nat) : number (lowBits n width) = n % 2 ^ width := by
  induction width with
  | zero => rw [Nat.pow_zero, Nat.mod_one]; rfl
  | succ width ih =>
      rw [lowBits_succ, number, toNat_ite, length_lowBits, ih, Nat.toNat_testBit, Nat.mod_pow_succ,
        Nat.mul_comm, Nat.add_comm]

/-- Binary bits are the `lowBits` **of their own number**. -/
theorem lowBits_number {bits : List Bit} (hbinary : ∀ b ∈ bits, b = zero ∨ b = one) :
    lowBits (number bits) bits.length = bits := by
  refine eq_of_number_eq (length_lowBits _ _) eq_zero_or_one_of_mem_lowBits hbinary ?_
  rw [number_lowBits, Nat.mod_eq_of_lt (number_lt bits)]

end Bit

/-- `Value.ofNat` writes a number as the vector of its low bits. -/
theorem Value.ofNat_eq (n width : Nat) : ofNat n width = .vector (Bit.lowBits n width) := rfl

namespace Reading

variable {width : Nat} {policy : UnknownBits} {c : Change} {bits : List Bit}

/-- Binary bits are read by `ofVector` as a number, whatever the policy. -/
theorem ofVector_of_binary (htime : 0 ≤ c.time) (hbits : c.value.bits? = some bits)
    (hpos : 0 < width) (hlen : width ≤ bits.length) (hbinary : ∀ b ∈ bits, b = .zero ∨ b = .one) :
    ofVector (some c) width policy = ofBinary (bits.take width) := by
  rw [ofVector_of_bits htime hbits, ofPayload_of_le hpos hlen, ofBits_of_counted]
  exact Or.inr fun b hb => hbinary b (List.mem_of_mem_take hb)

/-- The leading bits of a number that was written denote the **high part** of what was
written. -/
theorem number_take_lowBits (n bits width : Nat) :
    Bit.number ((Bit.lowBits n bits).take width) = n % 2 ^ bits / 2 ^ (bits - width) := by
  rw [Bit.number_take, Bit.number_lowBits, Bit.length_lowBits]

/-- At the **full width**, up to that of a word, `ofVector` reads a number modulo the power of
two. -/
theorem ofVector_of_ofNat {n : Nat} (htime : 0 ≤ c.time) (hc : c.value = .ofNat n width)
    (hpos : 0 < width) (hnarrow : width ≤ 64) :
    ofVector (some c) width policy = vector (UInt64.ofNat (n % 2 ^ width)) := by
  have hlen : (Bit.lowBits n width).length = width := Bit.length_lowBits n width
  have hbits : c.value.bits? = some (Bit.lowBits n width) := by rw [hc, Value.ofNat_eq, Value.bits?]
  have htake : (Bit.lowBits n width).take width = Bit.lowBits n width :=
    List.take_of_length_le hlen.le
  have hpow : 2 ^ width ≤ 2 ^ 64 := Nat.pow_le_pow_right (by decide) hnarrow
  have hmod : n % 2 ^ width < 2 ^ width := Nat.mod_lt _ (Nat.two_pow_pos width)
  obtain ⟨word, hword, hnumber⟩ := ofBinary_of_le (hlen.trans_le hnarrow)
  rw [ofVector_of_binary htime hbits hpos hlen.ge Bit.eq_zero_or_one_of_mem_lowBits, htake, hword,
    vector.injEq, ← UInt64.toNat_inj, hnumber, Bit.number_lowBits,
    UInt64.toNat_ofNat_of_lt' (hmod.trans_le hpow)]

/-- **Reading inverts writing, and writing inverts reading.** Let `Value.ofNat` write a number
with some bits, and let `ofVector` read it at a width that is not larger, at a time that is not
negative. Under either policy the reading is the number modulo the power of two of the bits that
were written, divided by that of the bits that were not read: as a `vector` up to a width of 64,
and as a decimal numeral beyond. At the full width that is the number modulo the power of two.
Conversely, let a value of up to 64 binary bits be read at its own width. The reading is a word,
and the word written with as many bits gives the same bits again. -/
theorem ofVector_inverts_ofNat (time : Time) (htime : 0 ≤ time) (policy : UnknownBits) :
    (∀ n bits width, 1 ≤ width → width ≤ bits →
      let high := n % 2 ^ bits / 2 ^ (bits - width)
      let reading := ofVector (some ⟨time, .ofNat n bits⟩) width policy
      (width ≤ 64 → ∃ word : UInt64, word.toNat = high ∧ reading = .vector word) ∧
        (64 < width → reading = .wideVector (toString high)) ∧
        (width = bits → high = n % 2 ^ bits)) ∧
      ∀ (value : Value) (payload : List Bit), value.bits? = some payload →
        1 ≤ payload.length → payload.length ≤ 64 → (∀ b ∈ payload, b = .zero ∨ b = .one) →
        ∃ word : UInt64,
          ofVector (some ⟨time, value⟩) payload.length policy = .vector word ∧
            Value.ofNat word.toNat payload.length = .vector payload := by
  refine ⟨fun n bits width hpos hle => ?_, fun value payload hbits hpos hle hbinary => ?_⟩
  · intro high reading
    have hlen : width ≤ (Bit.lowBits n bits).length := (Bit.length_lowBits n bits).symm ▸ hle
    have htake := List.length_take_of_le hlen
    have hhigh : Bit.number ((Bit.lowBits n bits).take width) = high :=
      number_take_lowBits n bits width
    have hread : reading = ofBinary ((Bit.lowBits n bits).take width) :=
      ofVector_of_binary htime rfl hpos hlen Bit.eq_zero_or_one_of_mem_lowBits
    refine ⟨fun hnarrow => ?_, fun hwide => ?_, ?_⟩
    · obtain ⟨word, hword, hnumber⟩ := ofBinary_of_le (htake.trans_le hnarrow)
      exact ⟨word, hnumber.trans hhigh, hread.trans hword⟩
    · rw [hread, ofBinary_of_gt (htake.symm ▸ hwide), hhigh]
    · rintro rfl
      simp only [high, Nat.sub_self, Nat.pow_zero, Nat.div_one]
  · obtain ⟨word, hword, hnumber⟩ := ofBinary_of_le hle
    have hread : ofVector (some ⟨time, value⟩) payload.length policy =
        ofBinary (payload.take payload.length) :=
      ofVector_of_binary htime hbits hpos (Nat.le_refl _) hbinary
    rw [List.take_length, hword] at hread
    refine ⟨word, hread, ?_⟩
    rw [Value.ofNat_eq, hnumber, Bit.lowBits_number hbinary]

/-- One thousand, of which eight bits are written and the first three of them read, and a
scalar that is read and written. -/
theorem ofVector_inverts_ofNat_thousand :
    (∃ word : UInt64, word.toNat = 7 ∧
      ofVector (some ⟨0, .ofNat 1000 8⟩) 3 .propagate = .vector word) ∧
      ∃ word : UInt64, ofVector (some ⟨0, .scalar .one⟩) 1 .propagate = .vector word ∧
        Value.ofNat word.toNat 1 = .vector [.one] := by
  obtain ⟨hread, hwrite⟩ := ofVector_inverts_ofNat 0 (by decide) .propagate
  obtain ⟨hword, -, -⟩ := hread 1000 8 3 (by decide) (by decide)
  exact ⟨hword (by decide), hwrite (.scalar .one) [.one] rfl (by decide) (by decide) (by decide)⟩

end Reading

end Waveform
