import Mathlib.Logic.Relation
import Waveform.Proofs.Decimal.Doubling

/-!
# The Passes of the Doubling

Each bit takes one pass over the digits, and a pass goes from digit to digit. This module looks
at the conversion at every **moment** of it: between two passes, and within a pass between two
digits (`Decimal.Moment`). `Decimal.Reaches` says which moments come up when some bits are read.

All that holds at a moment follows from one invariant, `Decimal.Moment.OnCourse`: between two
passes the digits are those of the bits read so far, and within a pass the digits already
doubled, continued by the doubling of those that are still pending, are the outcome of the
pass. One step keeps it (`Decimal.Moment.OnCourse.step`), so it holds at every moment that is
reached. Between two passes nothing else is needed: the digits of the bits read so far come up
indeed, and no others (`Decimal.reaches_between_iff`).

The main statement is `Decimal.exact_at_every_moment`: no byte overflows, the digits denote the
number of the bits read so far, and the numeral in the end is that number's.
-/

open Relation

namespace Waveform.Decimal

/-! ### Moments -/

/-- A **moment** of the conversion. -/
inductive Moment where
  /-- Between two passes, with the bits that have not been read. -/
  | between (digits : List UInt8) (unread : List Bit)
  /-- Within a pass, with the digits before and behind its place, the carry, and the bits that
  have not been read. -/
  | within (doubled : List UInt8) (carry : UInt8) (pending : List UInt8) (unread : List Bit)

namespace Moment

/-- The digits that are stored at a `Moment`. -/
def digits : Moment → List UInt8
  | between digits _ => digits
  | within doubled _ pending _ => doubled ++ pending

/-- The moment after one step. A pass starts with what the bit adds, goes from digit to digit,
and in the end what is carried out of the last digit becomes a digit of its own. -/
def next? : Moment → Option Moment
  | between _ [] => none
  | between digits (b :: unread) => some (within [] (carryOf b) digits unread)
  | within doubled carry (d :: pending) unread =>
    let sum := d * 2 + carry
    some (within (doubled ++ [sum % 10]) (sum / 10) pending unread)
  | within doubled carry [] unread =>
    some (between (if 0 < carry then doubled ++ [carry] else doubled) unread)

/-- One **step** of the conversion, by `next?`. -/
def Step (m m' : Moment) : Prop := m.next? = some m'

end Moment

/-- The moment comes up in the conversion of bits, after any number of `Moment.Step`s. -/
def Reaches (bits : List Bit) : Moment → Prop := ReflTransGen Moment.Step (.between [0] bits)

variable {bits : List Bit}

/-! ### The invariant -/

/-- With no digit pending, `doubleAdd` leaves what is carried, as a digit of its own unless it is
zero. -/
theorem append_doubleAdd_nil (doubled : List UInt8) (carry : UInt8) :
    (if 0 < carry then doubled ++ [carry] else doubled) = doubled ++ doubleAdd [] carry := by
  rw [doubleAdd]
  split
  · rfl
  · rw [List.append_nil]

theorem digitsOf_concat (bits : List Bit) (b : Bit) :
    digitsOf (bits ++ [b]) = doubleAdd (digitsOf bits) (carryOf b) := by
  rw [digitsOf, digitsFrom, List.foldl_concat]
  rfl

/-- The moment is **on course** in the conversion of bits: the invariant of `Moment.Step`. -/
inductive Moment.OnCourse (bits : List Bit) : Moment → Prop
  /-- The digits are the `digitsOf` the bits read so far. -/
  | between {read unread : List Bit} : read ++ unread = bits →
      OnCourse bits (.between (digitsOf read) unread)
  /-- The pending digits are the last ones of the bits read before this pass, and if these are
  doubled behind those that are doubled already, the pass is complete. -/
  | within {read unread : List Bit} {b : Bit} {doubled pending : List UInt8} {carry : UInt8} :
      read ++ b :: unread = bits → pending <:+ digitsOf read → carry.toNat ≤ 1 →
      doubled ++ doubleAdd pending carry = doubleAdd (digitsOf read) (carryOf b) →
      OnCourse bits (.within doubled carry pending unread)

theorem allDecimal_of_suffix {pending digits : List UInt8} (hsuffix : pending <:+ digits)
    (hdigits : AllDecimal digits) : AllDecimal pending :=
  fun d hd => hdigits d (hsuffix.subset hd)

/-- **One step** of the conversion keeps `Moment.OnCourse`. -/
theorem Moment.OnCourse.step {m m' : Moment} (hm : m.OnCourse bits) (hstep : m.Step m') :
    m'.OnCourse bits := by
  cases hm with
  | @between read unread hbits =>
      cases unread with
      | nil => simp [Step, next?] at hstep
      | cons b unread =>
          obtain rfl := Option.some.inj hstep
          exact .within hbits List.suffix_rfl (toNat_carryOf_le b) rfl
  | @within read unread b doubled pending carry hbits hsuffix hcarry hpass =>
      cases pending with
      | nil =>
          obtain rfl := Option.some.inj hstep
          rw [append_doubleAdd_nil, hpass, ← digitsOf_concat]
          exact .between (by rw [← hbits, List.append_assoc, List.singleton_append])
      | cons d pending =>
          obtain rfl := Option.some.inj hstep
          have hd : d.toNat ≤ 9 :=
            allDecimal_of_suffix hsuffix (canonical_digitsOf read).allDecimal d List.mem_cons_self
          refine .within hbits ((List.suffix_cons d pending).trans hsuffix)
            (toNat_carry_le hd hcarry) ?_
          rw [List.append_assoc, List.singleton_append, ← hpass, doubleAdd]

/-- Every moment that is reached is `Moment.OnCourse`. -/
theorem Reaches.onCourse {m : Moment} (hm : Reaches bits m) : m.OnCourse bits := by
  induction hm with
  | refl =>
      have hstart : Moment.OnCourse bits (.between (digitsOf []) bits) := .between rfl
      exact hstart
  | tail _ hstep ih => exact ih.step hstep

/-! ### Whole passes -/

/-- A **pass** ends with the `doubleAdd` of all digits that were pending. -/
theorem steps_pass (doubled pending : List UInt8) (carry : UInt8) (unread : List Bit) :
    ReflTransGen Moment.Step (.within doubled carry pending unread)
      (.between (doubled ++ doubleAdd pending carry) unread) := by
  induction pending generalizing doubled carry with
  | nil =>
      rw [← append_doubleAdd_nil]
      exact ReflTransGen.single rfl
  | cons d pending ih =>
      refine ReflTransGen.head rfl ?_
      have hrest := ih (doubled ++ [(d * 2 + carry) % 10]) ((d * 2 + carry) / 10)
      rwa [List.append_assoc, List.singleton_append] at hrest

/-- Between two passes exactly the `digitsOf` the bits read so far come up. -/
theorem reaches_between_iff {digits : List UInt8} {unread : List Bit} :
    Reaches bits (.between digits unread) ↔
      ∃ read, read ++ unread = bits ∧ digits = digitsOf read := by
  constructor
  · intro hreach
    cases hreach.onCourse with
    | between hbits => exact ⟨_, hbits, rfl⟩
  · rintro ⟨read, hbits, rfl⟩
    induction read using List.reverseRecOn generalizing unread with
    | nil =>
        obtain rfl : unread = bits := hbits
        exact ReflTransGen.refl
    | append_singleton read b ih =>
        rw [List.append_assoc, List.singleton_append] at hbits
        refine ((ih hbits).tail rfl).trans ?_
        rw [digitsOf_concat]
        exact steps_pass [] (digitsOf read) (carryOf b) unread

/-! ### What holds at every moment -/

/-- The digits that are stored at a moment are `AllDecimal`. -/
theorem Moment.OnCourse.allDecimal {m : Moment} (hm : m.OnCourse bits) : AllDecimal m.digits := by
  cases hm with
  | @between read => exact (canonical_digitsOf read).allDecimal
  | @within read _ b doubled pending carry _ hsuffix _ hpass =>
      intro d hd
      rcases List.mem_append.mp hd with hdoubled | hpending
      · have hall : AllDecimal (digitsOf (read ++ [b])) := (canonical_digitsOf _).allDecimal
        rw [digitsOf_concat, ← hpass] at hall
        exact hall d (List.mem_append_left _ hdoubled)
      · exact allDecimal_of_suffix hsuffix (canonical_digitsOf read).allDecimal d hpending

/-- The carry is at most one, so the next digit does not overflow a byte when it is doubled. -/
theorem Moment.OnCourse.carry_le {doubled pending : List UInt8} {carry : UInt8}
    {unread : List Bit} (hm : Moment.OnCourse bits (.within doubled carry pending unread)) :
    carry.toNat ≤ 1 ∧ ∀ d ∈ pending.head?,
      2 * d.toNat + carry.toNat ≤ 19 ∧ (d * 2 + carry).toNat = 2 * d.toNat + carry.toNat := by
  have hall := hm.allDecimal
  cases hm with
  | within _ _ hcarry _ =>
      refine ⟨hcarry, fun d hd => ?_⟩
      have hd' : d.toNat ≤ 9 := hall d (List.mem_append_right _ (List.mem_of_head? hd))
      exact ⟨by omega, toNat_doubled hd' hcarry⟩

/-- The **top digit** of `digitsOf` is zero for the number zero only. -/
theorem exists_top (bits : List Bit) :
    ∃ top, (digitsOf bits).getLast? = some top ∧ (top = 0 ↔ Bit.number bits = 0) := by
  have hcanonical := canonical_digitsOf bits
  have hlast := List.getLast?_eq_some_getLast hcanonical.ne_nil
  refine ⟨_, hlast, fun htop => ?_, fun hnumber => ?_⟩
  · have hzero := hcanonical.top_ne_zero (htop ▸ hlast)
    rw [← value_digitsOf, hzero]
    rfl
  · by_contra htop
    have hpos := value_pos hcanonical.ne_nil (by rwa [hlast, ne_eq, Option.some.injEq])
    rw [value_digitsOf] at hpos
    omega

/-- **The conversion is exact at every moment.** At each of them all stored digits are decimal,
and within a pass the carry is at most one, so doubling the next digit and adding the carry
gives at most nineteen and does not overflow. Between two passes exactly the digits of the bits
read so far come up. They denote the number of these bits, and the top digit is zero for the
number zero only. So the numeral is that of the number of all bits, and up to the width of a
word it is the text of the word that narrow vectors are read as. -/
theorem exact_at_every_moment (bits : List Bit) :
    (∀ m, Reaches bits m → AllDecimal m.digits) ∧
      (∀ doubled carry pending unread, Reaches bits (.within doubled carry pending unread) →
        carry.toNat ≤ 1 ∧ ∀ d ∈ pending.head?,
          2 * d.toNat + carry.toNat ≤ 19 ∧ (d * 2 + carry).toNat = 2 * d.toNat + carry.toNat) ∧
      (∀ digits unread, Reaches bits (.between digits unread) ↔
        ∃ read, read ++ unread = bits ∧ digits = digitsOf read) ∧
      (∀ read, value (digitsOf read) = Bit.number read ∧
        ∃ top, (digitsOf read).getLast? = some top ∧ (top = 0 ↔ Bit.number read = 0)) ∧
      ofBits bits = toString (Bit.number bits) ∧ ofBits [] = "0" ∧
      (bits.length ≤ 64 → ofBits bits = (Reading.vector (Reading.wordOfBits 0 bits)).text) := by
  refine ⟨fun m hm => hm.onCourse.allDecimal, fun _ _ _ _ hm => hm.onCourse.carry_le,
    fun digits unread => reaches_between_iff, fun read => ⟨value_digitsOf read, exists_top read⟩,
    ofBits_eq_toString bits, ofBits_eq_toString [], fun hlen => ?_⟩
  rw [ofBits_eq_toString, Reading.text, Reading.toNat_wordOfBits hlen]

/-- Ten in binary. In the last pass a second digit comes up. -/
theorem exact_at_every_moment_ten :
    let bits : List Bit := [.one, .zero, .one, .zero]
    Reaches bits (.within [] 0 [5] []) ∧ AllDecimal [5] ∧
      (5 : UInt8) ∈ [(5 : UInt8)].head? ∧ 2 * (5 : UInt8).toNat + (0 : UInt8).toNat ≤ 19 ∧
      bits.length ≤ 64 ∧
      ofBits bits = (Reading.vector (Reading.wordOfBits 0 bits)).text := by
  intro bits
  obtain ⟨hdigits, hcarry, hbetween, -, -, -, hword⟩ := exact_at_every_moment bits
  have hstart : Reaches bits (.between [5] [.zero]) :=
    (hbetween _ _).mpr ⟨[.one, .zero, .one], rfl, by decide⟩
  have hreach : Reaches bits (.within [] 0 [5] []) := hstart.tail rfl
  exact ⟨hreach, hdigits _ hreach, rfl, ((hcarry _ _ _ _ hreach).2 5 rfl).1, by decide,
    hword (by decide)⟩

end Waveform.Decimal
