import Waveform.Proofs.Bit.Text
import Waveform.Proofs.Reading.Vector

/-!
# Readings are Faithful

A reading forgets the bits beyond the width, and nothing else that its policy does not tell
it to forget. The written form of a reading is no worse in this than the reading itself.

The texts decide it. The written form of a number is the same numeral for a word as for a
wide vector (`Reading.text_ofBinary`), and the numeral of some bits tells where their strong
ones are (`Reading.text_ofBinary_eq_iff`). The text of bits tells every bit, and it is never
a numeral when one of them is not binary (`Bit.render_ne_toString`), so that numerals and
texts of bits cannot be confused either (`Reading.text_ofBits_eq_iff`).

The main statement, `Reading.ofVector_faithful`, is that two changes are read alike exactly
when they agree in their leading bits, or under the policy that takes the others for zeros,
in the positions of the strong ones among them.
-/

namespace Waveform

namespace Bit

/-- Only binary bits are written as digits. -/
theorem isDigit_char {b : Bit} (hdigit : b.char.isDigit = true) : b = zero ∨ b = one := by
  cases b with
  | zero => exact Or.inl rfl
  | one => exact Or.inr rfl
  | _ => exact absurd hdigit (by decide)

/-- The text of bits that are not all binary is **no numeral**. -/
theorem render_ne_toString {bits : List Bit} (hbits : ∃ b ∈ bits, ¬ (b = zero ∨ b = one))
    (n : Nat) : render bits ≠ toString n := by
  obtain ⟨b, hmem, hb⟩ := hbits
  intro heq
  rw [render, Nat.toString_eq_ofList_toDigits, String.ofList_inj] at heq
  have hchar : b.char ∈ Nat.toDigits 10 n := heq ▸ List.mem_map_of_mem hmem
  have hdigit : b.char.isDigit = true := Nat.isDigit_of_mem_toDigits (by decide) (by decide) hchar
  exact hb (isDigit_char hdigit)

/-- A number is known when its numeral is. -/
theorem number_eq_of_toString {bits bits' : List Bit}
    (heq : toString (number bits) = toString (number bits')) : number bits = number bits' := by
  rw [Nat.toString_eq_ofList_toDigits, Nat.toString_eq_ofList_toDigits, String.ofList_inj] at heq
  calc number bits = Nat.ofDigitChars 10 (Nat.toDigits 10 (number bits)) 0 :=
        Nat.ofDigitChars_ten_toDigits.symm
    _ = Nat.ofDigitChars 10 (Nat.toDigits 10 (number bits')) 0 := by rw [heq]
    _ = number bits' := Nat.ofDigitChars_ten_toDigits

end Bit

namespace Reading

variable {bits bits' : List Bit}

/-! ### Numbers -/

/-- A number is written as its **numeral** by `Reading.text`, whether it fits into a word or
not. -/
theorem text_ofBinary (bits : List Bit) :
    (ofBinary bits).text = toString (Bit.number bits) := by
  rcases Nat.lt_or_ge 64 bits.length with hwide | hnarrow
  · rw [ofBinary_of_gt hwide, text]
  · obtain ⟨word, hread, hword⟩ := ofBinary_of_le hnarrow
    rw [hread, text, hword]

/-- The written forms of two numbers, by `ofBinary` of the same width, tell where the strong ones
are. -/
theorem text_ofBinary_eq_iff (hlen : bits.length = bits'.length) :
    (ofBinary bits).text = (ofBinary bits').text ↔
      ∀ i : Nat, bits[i]? = some .one ↔ bits'[i]? = some .one := by
  rw [text_ofBinary, text_ofBinary, ← Bit.number_eq_iff hlen]
  exact ⟨Bit.number_eq_of_toString, congrArg toString⟩

/-- As many bits are read as the same number when that number is **written** the same way. -/
theorem ofBinary_eq_of_text (hlen : bits.length = bits'.length)
    (htext : (ofBinary bits).text = (ofBinary bits').text) : ofBinary bits = ofBinary bits' := by
  have hnumber : Bit.number bits = Bit.number bits' :=
    (Bit.number_eq_iff hlen).mpr ((text_ofBinary_eq_iff hlen).mp htext)
  rcases Nat.lt_or_ge 64 bits.length with hwide | hnarrow
  · rw [ofBinary_of_gt hwide, ofBinary_of_gt (hlen ▸ hwide), hnumber]
  · obtain ⟨word, hread, hword⟩ := ofBinary_of_le hnarrow
    obtain ⟨word', hread', hword'⟩ := ofBinary_of_le (hlen ▸ hnarrow)
    rw [hread, hread', vector.injEq, ← UInt64.toNat_inj, hword, hword', hnumber]

/-- The same for readings: a number tells **where the strong ones are**. -/
theorem ofBinary_eq_iff (hlen : bits.length = bits'.length) :
    ofBinary bits = ofBinary bits' ↔
      ∀ i : Nat, bits[i]? = some .one ↔ bits'[i]? = some .one := by
  rw [← text_ofBinary_eq_iff hlen]
  exact ⟨congrArg text, ofBinary_eq_of_text hlen⟩

/-! ### Numbers and texts -/

/-- Every list of bits is read under `propagate` as a number or as its own text. -/
theorem ofBits_propagate_cases (bits : List Bit) :
    (∀ b ∈ bits, b = .zero ∨ b = .one) ∧ ofBits .propagate bits = ofBinary bits ∨
      (∃ b ∈ bits, ¬ (b = .zero ∨ b = .one)) ∧
        ofBits .propagate bits = partiallyUnknown (Bit.render bits) := by
  by_cases hbinary : ∀ b ∈ bits, b = .zero ∨ b = .one
  · exact Or.inl ⟨hbinary, ofBits_of_counted (Or.inr hbinary)⟩
  · have hother : ∃ b ∈ bits, ¬ (b = .zero ∨ b = .one) := by
      simpa only [not_forall, exists_prop] using hbinary
    exact Or.inr ⟨hother, ofBits_of_propagated rfl hother⟩

/-- **No two written forms of as many bits collide** under `propagate`. -/
theorem text_ofBits_eq_iff (hlen : bits.length = bits'.length) :
    (ofBits .propagate bits).text = (ofBits .propagate bits').text ↔ bits = bits' := by
  refine ⟨fun heq => ?_, fun heq => by rw [heq]⟩
  rcases ofBits_propagate_cases bits with ⟨hbits, hread⟩ | ⟨hbits, hread⟩
  · rcases ofBits_propagate_cases bits' with ⟨hbits', hread'⟩ | ⟨hbits', hread'⟩
    · rw [hread, hread', text_ofBinary_eq_iff hlen, ← Bit.number_eq_iff hlen] at heq
      exact Bit.eq_of_number_eq hlen hbits hbits' heq
    · rw [hread, hread', text_ofBinary] at heq
      exact absurd heq.symm (Bit.render_ne_toString hbits' _)
  · rcases ofBits_propagate_cases bits' with ⟨hbits', hread'⟩ | ⟨hbits', hread'⟩
    · rw [hread, hread', text_ofBinary] at heq
      exact absurd heq (Bit.render_ne_toString hbits _)
    · rw [hread, hread'] at heq
      exact Bit.render_inj.mp heq

/-- A reading that is a text of bits is the text of the bits that were read. -/
theorem parse_of_ofBits {policy : UnknownBits} {written : String}
    (hread : ofBits policy bits = partiallyUnknown written) : Bit.parse written = .ok bits := by
  have hbinary : ofBinary bits ≠ partiallyUnknown written := by
    rw [ofBinary]
    split
    · simp
    · simp
  rw [ofBits] at hread
  split at hread
  · rw [← partiallyUnknown.inj hread, Bit.parse_render]
  · exact absurd hread hbinary

/-! ### Vectors -/

/-- **Vectors are read faithfully.** Take two changes that are not invalid and have at least as
many bits as `ofVector` reads. Under `propagate`, the changes have the same reading exactly when
their leading bits are the same, and so have the written forms of the readings. A reading that is
a text of bits gives these bits back by `Bit.parse`. Under `asZero`, the readings are the same
exactly when the leading bits have their strong ones at the same positions, and again so are the
written forms. -/
theorem ofVector_faithful (width : Nat) (c c' : Change) (bits bits' : List Bit)
    (hpos : 0 < width) (htime : 0 ≤ c.time) (htime' : 0 ≤ c'.time)
    (hbits : c.value.bits? = some bits) (hbits' : c'.value.bits? = some bits')
    (hlen : width ≤ bits.length) (hlen' : width ≤ bits'.length) :
    let read := fun change policy => ofVector (some change) width policy
    (read c .propagate = read c' .propagate ↔ bits.take width = bits'.take width) ∧
      ((read c .propagate).text = (read c' .propagate).text ↔
        bits.take width = bits'.take width) ∧
      (∀ policy written, read c policy = .partiallyUnknown written →
        Bit.parse written = .ok (bits.take width)) ∧
      (read c .asZero = read c' .asZero ↔
        ∀ i < width, bits[i]? = some .one ↔ bits'[i]? = some .one) ∧
      ((read c .asZero).text = (read c' .asZero).text ↔
        ∀ i < width, bits[i]? = some .one ↔ bits'[i]? = some .one) := by
  intro read
  have hread : ∀ policy, read c policy = ofBits policy (bits.take width) := fun policy =>
    (ofVector_of_bits htime hbits).trans (ofPayload_of_le hpos hlen)
  have hread' : ∀ policy, read c' policy = ofBits policy (bits'.take width) := fun policy =>
    (ofVector_of_bits htime' hbits').trans (ofPayload_of_le hpos hlen')
  have hsame : (bits.take width).length = (bits'.take width).length := by
    rw [List.length_take_of_le hlen, List.length_take_of_le hlen']
  have hones : (∀ i : Nat, (bits.take width)[i]? = some .one ↔
      (bits'.take width)[i]? = some .one) ↔
        ∀ i < width, bits[i]? = some .one ↔ bits'[i]? = some .one := by
    refine forall_congr' fun i => ?_
    by_cases hi : i < width
    · simp [List.getElem?_take_of_lt hi, hi]
    · simp [hi]
  simp only [hread, hread', ofBits_of_counted (Or.inl rfl : UnknownBits.asZero = .asZero ∨ _)]
  refine ⟨⟨fun heq => ?_, fun heq => by rw [heq]⟩, text_ofBits_eq_iff hsame,
    fun policy written => parse_of_ofBits, ?_, ?_⟩
  · exact (text_ofBits_eq_iff hsame).mp (congrArg text heq)
  · rw [ofBinary_eq_iff hsame, hones]
  · rw [text_ofBinary_eq_iff hsame, hones]

/-- Two vectors that agree in their first bit and have different unknown bits behind it, one
of them with a bit to spare. -/
theorem ofVector_faithful_unknowns :
    let c : Change := ⟨3, .vector [.one, .x, .one]⟩
    let c' : Change := ⟨0, .vector [.one, .u]⟩
    (ofVector (some c) 2 .propagate).text ≠ (ofVector (some c') 2 .propagate).text ∧
      ofVector (some c) 2 .asZero = ofVector (some c') 2 .asZero := by
  intro c c'
  have hfaithful := ofVector_faithful 2 c c' [.one, .x, .one] [.one, .u] (by decide) (by decide)
    (by decide) rfl rfl (by decide) (by decide)
  exact ⟨mt hfaithful.2.1.mp (by decide), hfaithful.2.2.2.1.mpr (by decide)⟩

end Reading

end Waveform
