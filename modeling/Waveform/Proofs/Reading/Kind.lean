import Waveform.Proofs.Reading.Vector
import Waveform.Proofs.Recorder.Verdict

/-!
# The Kind of a Reading

What kind of reading a signal has at some time can be told without looking at the bits in
effect, except for whether they are binary, as long as the value in effect fits the signal:
the width decides between a single bit, a word and a numeral.

`ReadingKind` lists the kinds by rules, for changes that can be read at all. Which changes
those are is a matter of `Change.IsSilent`. The main statements are
`Engine.decode_eq_unknown_iff` and `Engine.readingKind_decode`: of the changes that fit a
signal, the silent ones are unknown, and all others have a reading of the kind that the
rules give. A payload that is too short never comes into it.
-/

namespace Waveform

open Reading

/-- The only values with `Fits` and without as many bits as the signal are reals and the empty
vector. -/
theorem Value.fits_iff {v : Value} {s : Signal} :
    v.Fits s ↔
      (∃ number, v = .real number) ∨ v = .vector [] ∨
        ∃ bits, v.bits? = some bits ∧ bits.length = (s.msi.toInt - s.lsi.toInt).natAbs + 1 := by
  cases v with
  | scalar bit => simp [Fits, bits?]
  | vector bits =>
      by_cases hbits : bits = []
      · simp [Fits, bits?, hbits]
      · simp [Fits, bits?, hbits]
  | real number => simp [Fits, bits?]

/-- Only the empty vector has bits and none of them. -/
theorem Value.bits?_eq_nil_iff {v : Value} : v.bits? = some [] ↔ v = .vector [] := by
  cases v <;> simp [bits?]

/-- A change is **silent** at a width when it has no reading: its vector is empty, or it has
a negative time and is not read as a single bit. -/
def Change.IsSilent (c : Change) (width : Nat) : Prop :=
  c.value = .vector [] ∨ 1 < width ∧ c.time < 0

/-- The **kind of reading** that a value of a signal has at some width, under a `policy` for
non-binary bits. -/
inductive ReadingKind (width : Nat) (policy : UnknownBits) (value : Value) : Reading → Prop
  /-- A real is read as it is, at any width. -/
  | real {number : Binary64} : value = .real number → ReadingKind width policy value (.real number)
  /-- A signal of one bit has the state of that bit. -/
  | scalar {bit : Bit} : width = 1 → value.bits? = some [bit] →
      ReadingKind width policy value (.scalar bit)
  /-- From two to 64 bits the reading is a word, of no more bits than the signal. -/
  | word {bits : List Bit} {word : UInt64} : 1 < width → width ≤ 64 → value.bits? = some bits →
      (policy = .asZero ∨ ∀ b ∈ bits, b = .zero ∨ b = .one) → word.toNat < 2 ^ width →
      ReadingKind width policy value (.vector word)
  /-- Beyond 64 bits it is a numeral. -/
  | numeral {bits : List Bit} {numeral : String} : 64 < width → value.bits? = some bits →
      (policy = .asZero ∨ ∀ b ∈ bits, b = .zero ∨ b = .one) →
      ReadingKind width policy value (.wideVector numeral)
  /-- A non-binary bit under `propagate` makes it a text, with a character for each bit of the
  signal. -/
  | text {bits : List Bit} {written : String} : 1 < width → value.bits? = some bits →
      policy = .propagate → (∃ b ∈ bits, ¬ (b = .zero ∨ b = .one)) → written.length = width →
      ReadingKind width policy value (.partiallyUnknown written)

theorem ReadingKind.ne_unknown {width : Nat} {policy : UnknownBits} {value : Value} {r : Reading}
    (h : ReadingKind width policy value r) : r ≠ .unknown := by
  cases h <;> simp

namespace Reading

variable {width : Nat} {policy : UnknownBits} {s : Signal} {c : Change}

/-! ### Single bits -/

/-- A change that fits a signal of one bit is silent and unknown, or it has a reading of its
kind. -/
theorem ofScalar_cases (hwidth : s.width = 1) (hfits : c.value.Fits s) :
    c.IsSilent 1 ∧ ofScalar (some c) = unknown ∨
      ¬ c.IsSilent 1 ∧ ReadingKind 1 policy c.value (ofScalar (some c)) := by
  obtain ⟨time, value⟩ := c
  cases value with
  | scalar bit => exact Or.inr ⟨by simp [Change.IsSilent], .scalar rfl rfl⟩
  | real number => exact Or.inr ⟨by simp [Change.IsSilent], .real rfl⟩
  | vector bits =>
      cases bits with
      | nil => exact Or.inl ⟨Or.inl rfl, rfl⟩
      | cons bit rest =>
          have hlen : (bit :: rest).length = s.width := hfits _ rfl (List.cons_ne_nil _ _)
          rw [hwidth] at hlen
          obtain rfl : rest = [] := List.length_eq_zero_iff.mp (Nat.succ.inj hlen)
          exact Or.inr ⟨by simp [Change.IsSilent], .scalar rfl rfl⟩

/-! ### Vectors -/

/-- A change that has bits and no negative time is not `IsSilent`. -/
theorem not_isSilent {bits : List Bit} (htime : 0 ≤ c.time) (hbits : c.value.bits? = some bits)
    (hne : bits ≠ []) : ¬ c.IsSilent width := by
  rintro (hempty | ⟨-, hneg⟩)
  · rw [Value.bits?_eq_nil_iff.mpr hempty, Option.some.injEq] at hbits
    exact hne hbits.symm
  · exact Int64.not_lt.mpr htime hneg

/-- Of a value that fits and is long enough, all bits are read. -/
theorem take_of_fits {bits : List Bit} (hfits : c.value.Fits s)
    (hbits : c.value.bits? = some bits) (hlen : s.width ≤ bits.length) :
    bits ≠ [] ∧ bits.take s.width = bits := by
  have hpos : 0 < s.width := Nat.succ_pos _
  have hne : bits ≠ [] := List.length_pos_iff.mp (by omega)
  have hfull : bits.length = s.width := hfits bits hbits hne
  exact ⟨hne, List.take_of_length_le hfull.le⟩

/-- A change that fits a signal of several bits is silent and unknown, or it has a reading
of its kind. -/
theorem ofVector_cases (hwidth : 1 < s.width) (hfits : c.value.Fits s) :
    c.IsSilent s.width ∧ ofVector (some c) s.width policy = unknown ∨
      ¬ c.IsSilent s.width ∧
        ReadingKind s.width policy c.value (ofVector (some c) s.width policy) := by
  obtain ⟨r, hr⟩ := exists_vectorReading (some c) s.width policy
  rw [ofVector_of_vectorReading hr]
  cases hr with
  | invalid hneg => exact Or.inl ⟨Or.inr ⟨hwidth, hneg⟩, rfl⟩
  | @tooShort _ bits hbits hshort =>
      -- a payload that fits can only be too short when it is empty
      have hempty : bits = [] := by
        by_contra hne
        have hfull : bits.length = s.width := hfits bits hbits hne
        omega
      exact Or.inl ⟨Or.inl (Value.bits?_eq_nil_iff.mp (hempty ▸ hbits)), rfl⟩
  | real htime hc =>
      refine Or.inr ⟨?_, .real hc⟩
      rintro (hempty | ⟨-, hneg⟩)
      · rw [hc] at hempty
        exact absurd hempty (by simp)
      · exact Int64.not_lt.mpr htime hneg
  | @word _ bits word htime hbits _ hlen hnarrow hcounted hword =>
      obtain ⟨hne, hall⟩ := take_of_fits hfits hbits hlen
      have hlt := Bit.number_lt (bits.take s.width)
      rw [List.length_take_of_le hlen, ← Bit.positional_eq_number hlen, ← hword] at hlt
      rw [hall] at hcounted
      exact Or.inr ⟨not_isSilent htime hbits hne, .word hwidth hnarrow hbits hcounted hlt⟩
  | numeral htime hbits hlen hwide hcounted =>
      obtain ⟨hne, hall⟩ := take_of_fits hfits hbits hlen
      rw [hall] at hcounted
      exact Or.inr ⟨not_isSilent htime hbits hne, .numeral hwide hbits hcounted⟩
  | @text _ bits htime hbits _ hlen hpolicy hother =>
      obtain ⟨hne, hall⟩ := take_of_fits hfits hbits hlen
      have hchars : (String.ofList ((bits.take s.width).map Bit.char)).length = s.width := by
        rw [String.length_ofList, List.length_map, List.length_take_of_le hlen]
      rw [hall] at hother
      exact Or.inr ⟨not_isSilent htime hbits hne, .text hwidth hbits hpolicy hother hchars⟩

end Reading

/-! ### Signals -/

namespace Engine

variable {e : Engine} {s : Signal} {c : Change}

/-- What `decode` makes of a change that fits: it is silent and unknown, or it has a reading of
its kind. -/
theorem decode_cases (hfits : c.value.Fits s) :
    c.IsSilent s.width ∧ e.decode s (some c) = .unknown ∨
      ¬ c.IsSilent s.width ∧
        ReadingKind s.width e.settings.unknownBits c.value (e.decode s (some c)) := by
  rw [decode]
  split
  · rename_i hscalar
    have hwidth : s.width = 1 := of_decide_eq_true hscalar
    rw [hwidth]
    exact ofScalar_cases hwidth hfits
  · rename_i hvector
    have hne : s.width ≠ 1 := fun hwidth => hvector (decide_eq_true hwidth)
    have hpos : 0 < s.width := Nat.succ_pos _
    exact ofVector_cases (by omega) hfits

/-- **Nothing is known** of a fitting change exactly when it `IsSilent`. -/
theorem decode_eq_unknown_iff (hfits : c.value.Fits s) :
    e.decode s (some c) = .unknown ↔ c.IsSilent s.width := by
  rcases decode_cases (e := e) hfits with ⟨hsilent, hread⟩ | ⟨hsilent, hkind⟩
  · exact ⟨fun _ => hsilent, fun _ => hread⟩
  · exact ⟨fun hread => absurd hread hkind.ne_unknown, fun h => absurd h hsilent⟩

/-- A fitting change of which something is known has a reading of **its kind**, `ReadingKind`. -/
theorem readingKind_decode (hfits : c.value.Fits s)
    (hknown : e.decode s (some c) ≠ .unknown) :
    ReadingKind s.width e.settings.unknownBits c.value (e.decode s (some c)) := by
  rcases decode_cases (e := e) hfits with ⟨-, hread⟩ | ⟨-, hkind⟩
  · exact absurd hread hknown
  · exact hkind

end Engine

end Waveform
