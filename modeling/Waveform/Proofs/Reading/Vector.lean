import Waveform.Proofs.Bit.Alphabet
import Waveform.Proofs.Decimal.Doubling

/-!
# Vectors are Read Exactly

The decoder of vectors takes one of several ways: it gives up early on what is absent or
marked as invalid, it hands a real on, it spells out a vector with non-binary bits, and it
computes the number of any other vector, in a machine word or digit by digit. Each of
these ways has a lemma of its own here.

`VectorReading` says which reading a change has, rule by rule and without an algorithm:
numbers are sums over positions and texts are lists of characters. The main statement,
`Reading.ofVector_exact`, is that the decoder answers with a reading exactly when these
rules give it, and that the bits of a vector beyond the width never matter.
-/

namespace Waveform

open Reading

/-- The **reading of a vector** of some `width`, under a `policy` for non-binary bits. A scalar
counts as a vector of one bit. -/
inductive VectorReading (width : Nat) (policy : UnknownBits) : Option Change → Reading → Prop
  /-- Where no change is in effect, nothing is known. -/
  | absent : VectorReading width policy none unknown
  /-- Negative times mark invalid changes. -/
  | invalid {c : Change} : c.time < 0 → VectorReading width policy (some c) unknown
  /-- The width is zero, or there are fewer bits than that. -/
  | tooShort {c : Change} {bits : List Bit} : c.value.bits? = some bits →
      width = 0 ∨ bits.length < width → VectorReading width policy (some c) unknown
  /-- A real is read as it is, at any width. -/
  | real {c : Change} {number : Binary64} : 0 ≤ c.time → c.value = .real number →
      VectorReading width policy (some c) (.real number)
  /-- Up to 64 bits, the reading is the word of the number. -/
  | word {c : Change} {bits : List Bit} {word : UInt64} : 0 ≤ c.time →
      c.value.bits? = some bits → 0 < width → width ≤ bits.length → width ≤ 64 →
      (policy = .asZero ∨ ∀ b ∈ bits.take width, b = .zero ∨ b = .one) →
      word.toNat = Bit.positional bits width → VectorReading width policy (some c) (.vector word)
  /-- Beyond 64 bits, it is the decimal numeral of the number. -/
  | numeral {c : Change} {bits : List Bit} : 0 ≤ c.time →
      c.value.bits? = some bits → width ≤ bits.length → 64 < width →
      (policy = .asZero ∨ ∀ b ∈ bits.take width, b = .zero ∨ b = .one) →
      VectorReading width policy (some c) (.wideVector (toString (Bit.positional bits width)))
  /-- A non-binary bit under `propagate` makes it a text. -/
  | text {c : Change} {bits : List Bit} : 0 ≤ c.time →
      c.value.bits? = some bits → 0 < width → width ≤ bits.length → policy = .propagate →
      (∃ b ∈ bits.take width, ¬ (b = .zero ∨ b = .one)) →
      VectorReading width policy (some c)
        (.partiallyUnknown (String.ofList ((bits.take width).map Bit.char)))

/-- Only reals have no bits. -/
theorem Value.bits?_eq_none_iff {v : Value} : v.bits? = none ↔ ∃ number, v = .real number := by
  cases v <;> simp [bits?]

namespace Reading

variable {width : Nat} {policy : UnknownBits} {c : Change} {bits : List Bit}

/-! ### The ways of the decoder -/

theorem ofVector_of_neg (hneg : c.time < 0) : ofVector (some c) width policy = unknown := by
  simp only [ofVector, if_pos hneg]

theorem ofVector_of_real {number : Binary64} (htime : 0 ≤ c.time) (hc : c.value = .real number) :
    ofVector (some c) width policy = real number := by
  simp only [ofVector, if_neg (Int64.not_lt.mpr htime), hc]

theorem ofVector_of_bits (htime : 0 ≤ c.time) (hbits : c.value.bits? = some bits) :
    ofVector (some c) width policy = ofVector.ofPayload width policy bits := by
  simp only [ofVector, if_neg (Int64.not_lt.mpr htime)]
  cases hvalue : c.value with
  | scalar bit =>
      obtain rfl : [bit] = bits := by simpa [Value.bits?, hvalue] using hbits
      rfl
  | vector all =>
      obtain rfl : all = bits := by simpa [Value.bits?, hvalue] using hbits
      rfl
  | real number => simp [Value.bits?, hvalue] at hbits

theorem ofPayload_of_short (hshort : width = 0 ∨ bits.length < width) :
    ofVector.ofPayload width policy bits = unknown :=
  if_pos hshort

theorem ofPayload_of_le (hpos : 0 < width) (hlen : width ≤ bits.length) :
    ofVector.ofPayload width policy bits = ofBits policy (bits.take width) :=
  if_neg (by omega)

/-- Bits that are binary, or read under `asZero`, are read as a number. -/
theorem ofBits_of_counted
    (hcounted : policy = .asZero ∨ ∀ b ∈ bits, b = .zero ∨ b = .one) :
    ofBits policy bits = ofBinary bits := by
  refine if_neg ?_
  rintro ⟨hpolicy, halphabet⟩
  rcases hcounted with hzero | hbinary
  · rw [hpolicy] at hzero
    exact absurd hzero (by decide)
  · exact halphabet (Alphabet.ofBits_eq_two_iff.mpr hbinary)

/-- A non-binary bit under `propagate` turns the reading into a text. -/
theorem ofBits_of_propagated (hpolicy : policy = .propagate)
    (hbits : ∃ b ∈ bits, ¬ (b = .zero ∨ b = .one)) :
    ofBits policy bits = partiallyUnknown (String.ofList (bits.map Bit.char)) := by
  obtain ⟨b, hmem, hb⟩ := hbits
  refine if_pos ⟨hpolicy, fun htwo => ?_⟩
  exact hb (Alphabet.ofBits_eq_two_iff.mp htwo b hmem)

/-- A narrow vector is read as the word of its number. -/
theorem ofBinary_of_le (hlen : bits.length ≤ 64) :
    ∃ word, ofBinary bits = vector word ∧ word.toNat = Bit.number bits :=
  ⟨_, if_pos hlen, toNat_wordOfBits hlen⟩

/-- A wide vector is read as the numeral of its number. -/
theorem ofBinary_of_gt (hlen : 64 < bits.length) :
    ofBinary bits = wideVector (toString (Bit.number bits)) := by
  rw [ofBinary, if_neg (by rw [wordWidth]; omega), Decimal.ofBits_eq_toString]

/-- Bits beyond the width do not matter, as long as there are enough before them. -/
theorem ofVector_append (time : Time) {more : List Bit} (hlen : width ≤ bits.length) :
    ofVector (some ⟨time, .vector (bits ++ more)⟩) width policy =
      ofVector (some ⟨time, .vector bits⟩) width policy := by
  have hpayload : ofVector.ofPayload width policy (bits ++ more) =
      ofVector.ofPayload width policy bits := by
    rcases Nat.eq_zero_or_pos width with hzero | hpos
    · rw [ofPayload_of_short (Or.inl hzero), ofPayload_of_short (Or.inl hzero)]
    · rw [ofPayload_of_le hpos (by rw [List.length_append]; omega), ofPayload_of_le hpos hlen,
        List.take_append_of_le_length hlen]
  simp only [ofVector, hpayload]

/-! ### The rules and the decoder -/

/-- Whatever `VectorReading` gives, the decoder answers. -/
theorem ofVector_of_vectorReading {change? : Option Change} {r : Reading}
    (h : VectorReading width policy change? r) : ofVector change? width policy = r := by
  cases h with
  | absent => rfl
  | invalid hneg => exact ofVector_of_neg hneg
  | @tooShort c bits hbits hshort =>
      by_cases hneg : c.time < 0
      · exact ofVector_of_neg hneg
      · rw [ofVector_of_bits (Int64.not_lt.mp hneg) hbits, ofPayload_of_short hshort]
  | real htime hc => exact ofVector_of_real htime hc
  | word htime hbits hpos hlen hnarrow hcounted hword =>
      have htake := List.length_take_of_le hlen
      obtain ⟨word', hread, hword'⟩ := ofBinary_of_le (htake.trans_le hnarrow)
      rw [ofVector_of_bits htime hbits, ofPayload_of_le hpos hlen, ofBits_of_counted hcounted,
        hread, vector.injEq, ← UInt64.toNat_inj, hword', hword, Bit.positional_eq_number hlen]
  | numeral htime hbits hlen hwide hcounted =>
      have htake := List.length_take_of_le hlen
      rw [ofVector_of_bits htime hbits, ofPayload_of_le (by omega) hlen,
        ofBits_of_counted hcounted, ofBinary_of_gt (by omega), Bit.positional_eq_number hlen]
  | text htime hbits hpos hlen hpolicy hother =>
      rw [ofVector_of_bits htime hbits, ofPayload_of_le hpos hlen,
        ofBits_of_propagated hpolicy hother]

/-- The rules cover a change whose value has bits. -/
theorem exists_vectorReading_of_bits (htime : 0 ≤ c.time) (hbits : c.value.bits? = some bits) :
    ∃ r, VectorReading width policy (some c) r := by
  by_cases hshort : width = 0 ∨ bits.length < width
  · exact ⟨_, .tooShort hbits hshort⟩
  have hpos : 0 < width := by omega
  have hlen : width ≤ bits.length := by omega
  by_cases hcounted : policy = .asZero ∨ ∀ b ∈ bits.take width, b = .zero ∨ b = .one
  · rcases Nat.lt_or_ge 64 width with hwide | hnarrow
    · exact ⟨_, .numeral htime hbits hlen hwide hcounted⟩
    · have htake := List.length_take_of_le hlen
      obtain ⟨word, -, hword⟩ := ofBinary_of_le (htake.trans_le hnarrow)
      rw [← Bit.positional_eq_number hlen] at hword
      exact ⟨_, .word htime hbits hpos hlen hnarrow hcounted hword⟩
  · rw [not_or, not_forall] at hcounted
    obtain ⟨hpolicy, b, hb⟩ := hcounted
    rw [Classical.not_imp] at hb
    refine ⟨_, .text htime hbits hpos hlen ?_ ⟨b, hb⟩⟩
    cases policy with
    | asZero => exact absurd rfl hpolicy
    | propagate => rfl

/-- `VectorReading` covers every change, and none. -/
theorem exists_vectorReading (change? : Option Change) (width : Nat) (policy : UnknownBits) :
    ∃ r, VectorReading width policy change? r := by
  cases change? with
  | none => exact ⟨_, .absent⟩
  | some c =>
      by_cases hneg : c.time < 0
      · exact ⟨_, .invalid hneg⟩
      have htime := Int64.not_lt.mp hneg
      cases hbits : c.value.bits? with
      | some bits => exact exists_vectorReading_of_bits htime hbits
      | none =>
          obtain ⟨number, hreal⟩ := Value.bits?_eq_none_iff.mp hbits
          exact ⟨_, .real htime hreal⟩

/-- **Vectors are read exactly.** The decoder `ofVector` answers with a reading exactly when
`VectorReading` gives it, so the rules give one and only one: the number of a vector is the same
sum over positions on the way through machine words and on the way through decimal digits. The
bits beyond the width never matter. -/
theorem ofVector_exact (change? : Option Change) (width : Nat) (policy : UnknownBits) :
    (∀ r, ofVector change? width policy = r ↔ VectorReading width policy change? r) ∧
      ∀ time bits more, width ≤ bits.length →
        ofVector (some ⟨time, .vector (bits ++ more)⟩) width policy =
          ofVector (some ⟨time, .vector bits⟩) width policy := by
  refine ⟨fun r => ⟨?_, ofVector_of_vectorReading⟩, ?_⟩
  · rintro rfl
    obtain ⟨r, hr⟩ := exists_vectorReading change? width policy
    rwa [ofVector_of_vectorReading hr]
  · intro time bits more hlen
    exact ofVector_append time hlen

/-- The third bit of a vector that is read at a width of two. -/
theorem ofVector_exact_two :
    2 ≤ [Bit.one, Bit.x].length ∧
      ofVector (some ⟨0, .vector ([.one, .x] ++ [.zero])⟩) 2 .propagate =
        ofVector (some ⟨0, .vector [.one, .x]⟩) 2 .propagate :=
  ⟨by decide, (ofVector_exact none 2 .propagate).2 0 [.one, .x] [.zero] (by decide)⟩

end Reading

end Waveform
