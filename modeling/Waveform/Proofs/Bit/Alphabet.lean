import Mathlib.Order.BoundedOrder.Lattice
import Mathlib.Order.MinMax
import Waveform.Bit.Alphabet

/-!
# The Alphabet is a Maximum

Alphabets are linearly ordered by inclusion, with `two` at the bottom and `nine` at the top,
and `Alphabet.join` is the maximum of two of them. The scan for an alphabet stops early, at
the first bit that needs all nine states. It loses nothing by that, since the top absorbs
every other alphabet (`Alphabet.widen_eq_foldl`): the answer is the maximum of the alphabets
of all bits. Hence it is within a bound exactly when every single bit is
(`Alphabet.ofBits_le_iff`), and it is the smallest alphabet exactly when all bits are binary
(`Alphabet.ofBits_eq_two_iff`).

In a linear order an element is known when its upper bounds are, so that is all it takes for
the laws of the scan: it takes concatenation to the maximum, and it neither counts bits nor
minds their order. The main statement, `Alphabet.ofBits_exact`, adds that the answer is the
greatest alphabet of a bit in the list.
-/

namespace Waveform

namespace Alphabet

/-! ### The order -/

theorem rank_injective : Function.Injective rank := by
  intro a b
  cases a <;> cases b <;> simp [rank]

instance : Max Alphabet := ⟨join⟩

instance : Min Alphabet := minOfLe

instance : Ord Alphabet := ⟨fun a b => compare a.rank b.rank⟩

theorem join_eq_max (a b : Alphabet) : a.join b = max a b := rfl

/-- The order of inclusion, taken over from the numbers along `rank`. Its maximum is `join`. -/
instance : LinearOrder Alphabet :=
  rank_injective.linearOrder rank Iff.rfl Iff.rfl
    (fun a b => (apply_ite rank (a ≤ b) a b).trans (min_def a.rank b.rank).symm)
    (fun a b => (apply_ite rank (a ≤ b) b a).trans (max_def a.rank b.rank).symm)
    (fun _ _ => rfl)

/-- Every alphabet has the states of `two`, and none has more than those of `nine`. -/
instance : BoundedOrder Alphabet where
  bot := two
  bot_le a := Nat.zero_le a.rank
  top := nine
  le_top a := by cases a <;> decide

/-! ### The early stop -/

/-- Once all states of `nine` are needed, further bits change nothing. -/
theorem foldl_join_nine (bits : List Bit) :
    bits.foldl (fun seen b => seen.join b.alphabet) nine = nine := by
  induction bits with
  | nil => rfl
  | cons b bs ih =>
      have habsorbed : nine.join b.alphabet = nine := max_eq_left le_top
      rw [List.foldl_cons, habsorbed, ih]

/-- **The early stop is invisible**: `widen` joins the alphabets of all bits. -/
theorem widen_eq_foldl (seen : Alphabet) (bits : List Bit) :
    widen seen bits = bits.foldl (fun seen b => seen.join b.alphabet) seen := by
  induction bits generalizing seen with
  | nil => rfl
  | cons b bs ih =>
      rw [widen, List.foldl_cons]
      cases hjoin : seen.join b.alphabet with
      | nine => rw [foldl_join_nine]
      | two => exact ih two
      | four => exact ih four

/-- What has been seen and what follows have to be within a `bound`. -/
theorem widen_le_iff {seen bound : Alphabet} {bits : List Bit} :
    widen seen bits ≤ bound ↔ seen ≤ bound ∧ ∀ b ∈ bits, b.alphabet ≤ bound := by
  rw [widen_eq_foldl]
  induction bits generalizing seen with
  | nil => simp
  | cons b bs ih =>
      rw [List.foldl_cons, ih, join_eq_max, max_le_iff, List.forall_mem_cons, and_assoc]

/-- `ofBits` is within a `bound` exactly when the alphabet of every bit is. -/
theorem ofBits_le_iff {bound : Alphabet} {bits : List Bit} :
    ofBits bits ≤ bound ↔ ∀ b ∈ bits, b.alphabet ≤ bound := by
  rw [ofBits, widen_le_iff]
  exact and_iff_right bot_le

/-- The alphabet `two` is that of the binary vectors. -/
theorem ofBits_eq_two_iff {bits : List Bit} :
    ofBits bits = two ↔ ∀ b ∈ bits, b = .zero ∨ b = .one := by
  have hbit : ∀ b : Bit, b.alphabet ≤ two ↔ b = .zero ∨ b = .one := by
    intro b
    cases b <;> decide
  calc ofBits bits = two
    _ ↔ ofBits bits ≤ two := le_bot_iff.symm
    _ ↔ ∀ b ∈ bits, b.alphabet ≤ two := ofBits_le_iff
    _ ↔ ∀ b ∈ bits, b = .zero ∨ b = .one := by simp only [hbit]

/-- At most `four` is enough exactly for strong, unknown and undriven bits. -/
theorem ofBits_le_four_iff {bits : List Bit} :
    ofBits bits ≤ four ↔ ∀ b ∈ bits, b = .zero ∨ b = .one ∨ b = .x ∨ b = .z := by
  have hbit : ∀ b : Bit, b.alphabet ≤ four ↔ b = .zero ∨ b = .one ∨ b = .x ∨ b = .z := by
    intro b
    cases b <;> decide
  rw [ofBits_le_iff]
  simp only [hbit]

/-! ### The scan as a maximum -/

variable {bits bits' : List Bit}

/-- The alphabet that `ofBits` finds for a list has every bit of it. -/
theorem alphabet_le_ofBits {b : Bit} (hb : b ∈ bits) : b.alphabet ≤ ofBits bits :=
  ofBits_le_iff.mp le_rfl b hb

/-- **Concatenation is taken to the join** by `ofBits`, wherever the scans of the parts stop. -/
theorem ofBits_append (bits more : List Bit) :
    ofBits (bits ++ more) = (ofBits bits).join (ofBits more) := by
  refine eq_of_forall_ge_iff fun bound => ?_
  rw [join_eq_max, max_le_iff, ofBits_le_iff, ofBits_le_iff, ofBits_le_iff, List.forall_mem_append]

/-- **Only the members count** for `ofBits`, neither their order nor how often they are
repeated. -/
theorem ofBits_eq_of_mem_iff (hmem : ∀ b, b ∈ bits ↔ b ∈ bits') : ofBits bits = ofBits bits' := by
  refine eq_of_forall_ge_iff fun bound => ?_
  rw [ofBits_le_iff, ofBits_le_iff]
  exact forall_congr' fun b => imp_congr_left (hmem b)

theorem ofBits_singleton (b : Bit) : ofBits [b] = b.alphabet := by
  cases b <;> rfl

theorem ofBits_cons (b : Bit) (bits : List Bit) :
    ofBits (b :: bits) = b.alphabet.join (ofBits bits) := by
  rw [← List.singleton_append, ofBits_append, ofBits_singleton]

/-- What `ofBits` finds is the alphabet of **one of the bits**. -/
theorem exists_alphabet_eq (hne : bits ≠ []) : ∃ b ∈ bits, b.alphabet = ofBits bits := by
  induction bits with
  | nil => exact absurd rfl hne
  | cons b bs ih =>
      cases bs with
      | nil => exact ⟨b, List.mem_cons_self, (ofBits_singleton b).symm⟩
      | cons c cs =>
          rw [ofBits_cons]
          rcases max_choice b.alphabet (ofBits (c :: cs)) with hfirst | hrest
          · exact ⟨b, List.mem_cons_self, hfirst.symm⟩
          · obtain ⟨d, hd, heq⟩ := ih (List.cons_ne_nil c cs)
            exact ⟨d, List.mem_cons_of_mem b hd, heq.trans hrest.symm⟩

/-- **The early stop is invisible.** The scan `ofBits` answers with the greatest `Bit.alphabet`
in the whole list, and with `two` for the empty list. So it takes concatenation to `join`, the
order of the bits and their repetitions do not matter, it answers with `two` exactly when every
bit is a strong zero or a strong one, and with at most `four` exactly when every bit is one of
these, unknown, or undriven. -/
theorem ofBits_exact :
    (∀ bits, (∀ b ∈ bits, b.alphabet ≤ ofBits bits) ∧
      (bits = [] ∧ ofBits bits = two ∨ ∃ b ∈ bits, b.alphabet = ofBits bits)) ∧
      (∀ bits more, ofBits (bits ++ more) = (ofBits bits).join (ofBits more)) ∧
      (∀ bits bits', (∀ b, b ∈ bits ↔ b ∈ bits') → ofBits bits = ofBits bits') ∧
      ∀ bits, (ofBits bits = two ↔ ∀ b ∈ bits, b = .zero ∨ b = .one) ∧
        (ofBits bits ≤ four ↔ ∀ b ∈ bits, b = .zero ∨ b = .one ∨ b = .x ∨ b = .z) := by
  refine ⟨fun bits => ⟨fun b hb => alphabet_le_ofBits hb, ?_⟩, ofBits_append,
    fun bits bits' hmem => ofBits_eq_of_mem_iff hmem,
    fun bits => ⟨ofBits_eq_two_iff, ofBits_le_four_iff⟩⟩
  by_cases hempty : bits = []
  · exact Or.inl ⟨hempty, hempty ▸ rfl⟩
  · exact Or.inr (exists_alphabet_eq hempty)

/-- The second list stops the scan at another place, and repeats a bit. -/
theorem ofBits_exact_reordered :
    (∀ b, b ∈ [Bit.one, .x, .h] ↔ b ∈ [Bit.h, .one, .x, .one]) ∧
      ofBits [.one, .x, .h] = ofBits [.h, .one, .x, .one] := by
  have hmem : ∀ b, b ∈ [Bit.one, .x, .h] ↔ b ∈ [Bit.h, .one, .x, .one] := by
    intro b
    cases b <;> decide
  exact ⟨hmem, ofBits_exact.2.2.1 _ _ hmem⟩

end Alphabet

end Waveform
