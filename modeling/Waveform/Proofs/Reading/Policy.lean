import Waveform.Proofs.History.Lookup
import Waveform.Proofs.Reading.Faithful
import Waveform.Signal

/-!
# The two Policies for Unknown Bits

Non-binary bits of a vector are spelled out under one policy and taken for zeros under the
other. This module says when that can be seen at all, and what is seen then.

To take a bit for a zero is a function on bits (`Bit.asBinary`), which carries over to values
and to a single change of a history (`History.mapValueAt`). None of it touches a time, so
that a change stays in effect when its value is replaced (`History.inEffect?_mapValueAt`).

* `Reading.ofVector_asBinary`: under either policy, the reading of a value without its
  non-binary bits is the reading of the value itself under the policy that takes them for
  zeros;
* `Reading.ofVector_eq_of_binary`: the policies agree on a change whose leading bits are
  binary, if it can be read at all;
* `Reading.ofVector_asZero_ne`: a text of bits is never read under the policy that takes
  them for zeros.

The main statement, `Engine.policies_differ_exactly`, brings these to queries: the two policies
differ exactly where a vector shows unknown bits (`Signal.ShowsUnknownBits`).
-/

namespace Waveform

open Reading

/-! ### Bits taken for zeros -/

/-- The bit as it counts in a number: a strong one stays, and any other state is **taken for
a zero**. -/
def Bit.asBinary (b : Bit) : Bit := if b = one then one else zero

theorem Bit.asBinary_eq_one_iff {b : Bit} : b.asBinary = one ↔ b = one := by
  cases b <;> decide

theorem Bit.asBinary_cases (b : Bit) : b.asBinary = zero ∨ b.asBinary = one := by
  cases b <;> decide

/-- The value with all of its bits `Bit.asBinary`. -/
def Value.asBinary : Value → Value
  | scalar bit => scalar bit.asBinary
  | vector bits => vector (bits.map Bit.asBinary)
  | real number => real number

theorem Value.bits?_asBinary (v : Value) :
    v.asBinary.bits? = v.bits?.map (·.map Bit.asBinary) := by
  cases v <;> rfl

/-- A change of the same time with another value. -/
def Change.mapValue (f : Value → Value) (c : Change) : Change := { c with value := f c.value }

namespace Reading

variable {width : Nat} {c : Change}

/-- The number of a vector does not change when its bits are made `Bit.asBinary`. -/
theorem ofBinary_map_asBinary (bits : List Bit) :
    ofBinary (bits.map Bit.asBinary) = ofBinary bits := by
  rw [ofBinary_eq_iff (List.length_map _)]
  intro i
  rw [List.getElem?_map]
  cases bits[i]? with
  | none => simp
  | some b => simp [Bit.asBinary_eq_one_iff]

/-- Under either policy, bits taken for zeros are read as the number of the vector. -/
theorem ofBits_map_asBinary (policy : UnknownBits) (bits : List Bit) :
    ofBits policy (bits.map Bit.asBinary) = ofBits .asZero bits := by
  have hbinary : ∀ b ∈ bits.map Bit.asBinary, b = .zero ∨ b = .one :=
    List.forall_mem_map.mpr fun b _ => b.asBinary_cases
  rw [ofBits_of_counted (Or.inr hbinary), ofBits_of_counted (Or.inl rfl),
    ofBinary_map_asBinary]

theorem ofPayload_map_asBinary (width : Nat) (policy : UnknownBits) (bits : List Bit) :
    ofVector.ofPayload width policy (bits.map Bit.asBinary) =
      ofVector.ofPayload width .asZero bits := by
  simp only [ofVector.ofPayload, List.length_map, ← List.map_take, ofBits_map_asBinary]

/-- Under **either policy**, a value made `asBinary` is read as the value itself is under the
policy `asZero`. -/
theorem ofVector_asBinary (c : Change) (width : Nat) (policy : UnknownBits) :
    ofVector (some (c.mapValue Value.asBinary)) width policy =
      ofVector (some c) width .asZero := by
  by_cases hneg : c.time < 0
  · rw [ofVector_of_neg (c := c.mapValue Value.asBinary) hneg, ofVector_of_neg hneg]
  have htime : 0 ≤ c.time := Int64.not_lt.mp hneg
  cases hbits : c.value.bits? with
  | some bits =>
      have hbits' : (c.mapValue Value.asBinary).value.bits? = some (bits.map Bit.asBinary) := by
        rw [Change.mapValue, Value.bits?_asBinary, hbits, Option.map_some]
      rw [ofVector_of_bits (c := c.mapValue Value.asBinary) htime hbits',
        ofVector_of_bits htime hbits, ofPayload_map_asBinary]
  | none =>
      obtain ⟨number, hreal⟩ := Value.bits?_eq_none_iff.mp hbits
      have hreal' : (c.mapValue Value.asBinary).value = .real number := by
        rw [Change.mapValue, hreal, Value.asBinary]
      rw [ofVector_of_real (c := c.mapValue Value.asBinary) htime hreal',
        ofVector_of_real htime hreal]

/-! ### Where the policies agree -/

/-- The policies **agree** on a change unless it can be read and has an unknown bit among the
leading ones. -/
theorem ofVector_eq_of_binary (hbinary : ∀ bits, 0 ≤ c.time → c.value.bits? = some bits →
      width ≤ bits.length → ∀ b ∈ bits.take width, b = .zero ∨ b = .one) :
    ofVector (some c) width .propagate = ofVector (some c) width .asZero := by
  obtain ⟨r, hr⟩ := exists_vectorReading (some c) width .asZero
  rw [ofVector_of_vectorReading hr]
  refine ofVector_of_vectorReading ?_
  cases hr with
  | invalid hneg => exact .invalid hneg
  | tooShort hbits hshort => exact .tooShort hbits hshort
  | real htime hc => exact .real htime hc
  | word htime hbits hpos hlen hnarrow _ hword =>
      exact .word htime hbits hpos hlen hnarrow (Or.inr (hbinary _ htime hbits hlen)) hword
  | numeral htime hbits hlen hwide _ =>
      exact .numeral htime hbits hlen hwide (Or.inr (hbinary _ htime hbits hlen))
  | text _ _ _ _ hpolicy _ => exact absurd hpolicy (by decide)

/-- **No text of bits** is read under `asZero`. -/
theorem ofVector_asZero_ne (change? : Option Change) (width : Nat) (written : String) :
    ofVector change? width .asZero ≠ partiallyUnknown written := by
  obtain ⟨r, hr⟩ := exists_vectorReading change? width .asZero
  rw [ofVector_of_vectorReading hr]
  cases hr with
  | text _ _ _ _ hpolicy _ => exact absurd hpolicy (by decide)
  | _ => simp

theorem ofScalar_ne (change? : Option Change) (written : String) :
    ofScalar change? ≠ partiallyUnknown written := by
  cases change? with
  | none => simp [ofScalar]
  | some c =>
      obtain ⟨time, value⟩ := c
      cases value with
      | scalar bit => simp [ofScalar]
      | vector bits => cases bits <;> simp [ofScalar]
      | real number => simp [ofScalar]

end Reading

/-! ### A history with another value -/

/-- Times stay when a value is replaced. -/
theorem map_time_modify (changes : List Change) (index : Nat) (f : Value → Value) :
    (changes.modify index (Change.mapValue f)).map Change.time = changes.map Change.time := by
  refine List.ext_getElem? fun i => ?_
  rw [List.getElem?_map, List.getElem?_map, List.getElem?_modify]
  cases changes[i]? with
  | none => rfl
  | some c => split <;> rfl

namespace History

variable {h : History} {time : Time} {index : Nat} {c : Change}

/-- The history in which the **value** of the change at an index is replaced. -/
def mapValueAt (h : History) (index : Nat) (f : Value → Value) : History where
  changes := h.changes.modify index (Change.mapValue f)
  reserved := h.reserved
  inTimeOrder := by
    have order := h.inTimeOrder
    rw [InTimeOrder, ← List.pairwise_map] at order ⊢
    rwa [Array.toList_modify, map_time_modify]
  size_le_reserved := by
    rw [Array.size_modify]
    exact h.size_le_reserved

theorem times_mapValueAt (h : History) (index : Nat) (f : Value → Value) :
    (h.mapValueAt index f).times = h.times := by
  rw [times, toList, mapValueAt, Array.toList_modify, map_time_modify]
  rfl

/-- A change **stays in effect** when its value is replaced. -/
theorem inEffect?_mapValueAt (f : Value → Value) (hindex : h.IsGreatestUpTo time index)
    (hc : h.get? index = some c) :
    (h.mapValueAt index f).inEffect? time = some (c.mapValue f) := by
  refine inEffect?_eq_some_iff.mpr ⟨index, ?_, ?_⟩
  · rw [isGreatestUpTo_iff] at hindex ⊢
    rwa [← countP_times_le, times_mapValueAt, countP_times_le]
  · change (h.changes.modify index (Change.mapValue f))[index]? = _
    rw [Array.getElem?_modify, if_pos rfl, Option.map_eq_some_iff]
    exact ⟨c, hc, rfl⟩

end History

/-! ### Queries -/

/-- A signal **shows unknown bits** at a time: it is a vector, the change in effect is not
invalid and has enough bits, and some of those that are read are not binary. -/
structure Signal.ShowsUnknownBits (s : Signal) (time : Time) (index : Nat) (c : Change)
    (bits : List Bit) : Prop where
  width_ne_one : s.width ≠ 1
  isGreatestUpTo : s.history.IsGreatestUpTo time index
  get?_eq : s.history.get? index = some c
  time_nonneg : 0 ≤ c.time
  bits?_eq : c.value.bits? = some bits
  width_le : s.width ≤ bits.length
  exists_unknown : ∃ b ∈ bits.take s.width, ¬ (b = .zero ∨ b = .one)

/-- The signal in which all bits of the change at an index are made `Bit.asBinary`. -/
def Signal.asBinaryAt (s : Signal) (index : Nat) : Signal :=
  { s with history := s.history.mapValueAt index Value.asBinary }

namespace Engine

variable {e e' : Engine} {s : Signal} {time : Time} {index : Nat} {c : Change}
  {bits : List Bit}

theorem query_of_scalar (hwidth : s.width = 1) :
    e.query s time = ofScalar (s.history.inEffect? time) :=
  if_pos (decide_eq_true hwidth)

theorem query_of_vector (hwidth : s.width ≠ 1) :
    e.query s time = ofVector (s.history.inEffect? time) s.width e.settings.unknownBits :=
  if_neg (mt of_decide_eq_true hwidth)

/-- Unknown bits that `ShowsUnknownBits` tells of are read under `propagate` as the **text** of
the bits. -/
theorem query_of_showsUnknownBits (hpolicy : e.settings.unknownBits = .propagate)
    (hshows : s.ShowsUnknownBits time index c bits) :
    e.query s time = .partiallyUnknown (Bit.render (bits.take s.width)) := by
  obtain ⟨hwidth, hindex, hc, htime, hbits, hlen, hother⟩ := hshows
  have hpos : 0 < s.width := Nat.succ_pos _
  rw [query_of_vector hwidth, History.inEffect?_eq_some_iff.mpr ⟨index, hindex, hc⟩,
    ofVector_of_bits htime hbits, ofPayload_of_le hpos hlen,
    ofBits_of_propagated hpolicy hother]
  rfl

/-- A vector made `asBinaryAt` is read under **either policy** as the vector itself is under
`asZero`. -/
theorem query_asBinaryAt (hpolicy : e'.settings.unknownBits = .asZero) (hwidth : s.width ≠ 1)
    (hindex : s.history.IsGreatestUpTo time index) (hc : s.history.get? index = some c) :
    e.query (s.asBinaryAt index) time = e'.query s time := by
  have hchange : (s.asBinaryAt index).history.inEffect? time = some (c.mapValue Value.asBinary) :=
    History.inEffect?_mapValueAt Value.asBinary hindex hc
  have hread : e.query (s.asBinaryAt index) time =
      ofVector ((s.asBinaryAt index).history.inEffect? time) s.width e.settings.unknownBits :=
    query_of_vector hwidth
  rw [hread, hchange, ofVector_asBinary, query_of_vector hwidth,
    History.inEffect?_eq_some_iff.mpr ⟨index, hindex, hc⟩, hpolicy]

/-- Where `ShowsUnknownBits` fails, the policies **agree**. -/
theorem query_eq_of_not_showsUnknownBits (hpolicy : e.settings.unknownBits = .propagate)
    (hpolicy' : e'.settings.unknownBits = .asZero)
    (hshows : ∀ index c bits, ¬ s.ShowsUnknownBits time index c bits) :
    e.query s time = e'.query s time := by
  by_cases hwidth : s.width = 1
  · rw [query_of_scalar hwidth, query_of_scalar hwidth]
  rw [query_of_vector hwidth, query_of_vector hwidth, hpolicy, hpolicy']
  cases hchange : s.history.inEffect? time with
  | none => rfl
  | some c =>
      obtain ⟨index, hindex, hc⟩ := History.inEffect?_eq_some_iff.mp hchange
      refine ofVector_eq_of_binary fun bits htime hbits hlen b hb => ?_
      by_contra hother
      exact hshows index c bits ⟨hwidth, hindex, hc, htime, hbits, hlen, b, hb, hother⟩

/-- Where bits are taken for zeros, **no text of bits** is read. -/
theorem query_ne_partiallyUnknown (hpolicy : e.settings.unknownBits = .asZero) (s : Signal)
    (time : Time) (written : String) : e.query s time ≠ .partiallyUnknown written := by
  by_cases hwidth : s.width = 1
  · rw [query_of_scalar hwidth]
    exact ofScalar_ne _ _
  · rw [query_of_vector hwidth, hpolicy]
    exact ofVector_asZero_ne _ _ _

/-- **The policies differ exactly where they should.** Take an engine under `propagate`, and one
under `asZero`. Where `Signal.ShowsUnknownBits` holds, the first reads the text of the bits, as
many as the signal has. The second reads what both engines do when the signal is made
`asBinaryAt` the change in effect. Everywhere else the engines agree, and the second never reads
a text of bits. -/
theorem policies_differ_exactly (hpolicy : e.settings.unknownBits = .propagate)
    (hpolicy' : e'.settings.unknownBits = .asZero) (s : Signal) (time : Time) :
    (∀ index c bits, s.ShowsUnknownBits time index c bits →
      e.query s time = .partiallyUnknown (Bit.render (bits.take s.width)) ∧
        e'.query s time = e.query (s.asBinaryAt index) time ∧
        e'.query s time = e'.query (s.asBinaryAt index) time) ∧
      ((∀ index c bits, ¬ s.ShowsUnknownBits time index c bits) →
        e.query s time = e'.query s time) ∧
      ∀ written, e'.query s time ≠ .partiallyUnknown written := by
  refine ⟨fun index c bits hshows => ⟨query_of_showsUnknownBits hpolicy hshows, ?_, ?_⟩,
    query_eq_of_not_showsUnknownBits hpolicy hpolicy', query_ne_partiallyUnknown hpolicy' s time⟩
  · exact (query_asBinaryAt hpolicy' hshows.width_ne_one hshows.isGreatestUpTo
      hshows.get?_eq).symm
  · exact (query_asBinaryAt hpolicy' hshows.width_ne_one hshows.isGreatestUpTo
      hshows.get?_eq).symm

/-- A bus of two bits whose only change has an unknown one, asked for before that change and
after it. -/
theorem policies_differ_exactly_bus :
    let bus : Signal :=
      { name := "bus", msi := 1, lsi := 0
        history :=
          { changes := #[⟨3, .vector [.one, .x]⟩], reserved := 1
            inTimeOrder := by decide, size_le_reserved := by decide } }
    let spelled : Engine := { settings := { unknownBits := .propagate } }
    let counted : Engine := { settings := { unknownBits := .asZero } }
    bus.ShowsUnknownBits 5 0 ⟨3, .vector [.one, .x]⟩ [.one, .x] ∧
      spelled.query bus 5 = .partiallyUnknown "1x" ∧
      counted.query bus 5 = spelled.query (bus.asBinaryAt 0) 5 ∧
      (∀ index c bits, ¬ bus.ShowsUnknownBits 2 index c bits) ∧
      spelled.query bus 2 = counted.query bus 2 := by
  intro bus spelled counted
  have hshows : bus.ShowsUnknownBits 5 0 ⟨3, .vector [.one, .x]⟩ [.one, .x] :=
    ⟨by decide, (History.isGreatestUpTo_iff _ _ _).mpr (by decide), by decide, by decide, rfl,
      by decide, .x, by decide, by decide⟩
  have hearly : ∀ index c bits, ¬ bus.ShowsUnknownBits 2 index c bits := by
    intro index c bits hshows
    have hcount := (History.isGreatestUpTo_iff _ _ _).mp hshows.isGreatestUpTo
    have hzero : bus.history.countUpTo 2 = 0 := by decide
    omega
  have hspelled : spelled.settings.unknownBits = .propagate := rfl
  have hcounted : counted.settings.unknownBits = .asZero := rfl
  obtain ⟨htext, hnumber, -⟩ := (policies_differ_exactly hspelled hcounted bus 5).1 0 _ _ hshows
  exact ⟨hshows, htext, hnumber, hearly,
    (policies_differ_exactly hspelled hcounted bus 2).2.1 hearly⟩

end Engine

end Waveform
