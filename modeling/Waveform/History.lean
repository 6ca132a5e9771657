import Waveform.Change

/-!
# Histories

The history of a signal is the list of its changes in the order of their times. It grows
at its end only: `History.append` accepts a change that is not earlier than the last one
and rejects any other. Several changes may share a time, as happens within the delta
cycles of a simulator, and the last of them is the one that counts.

Two lemmas say what an append does: `History.append_eq_error_iff` when it is refused, and
`History.toList_append` what it adds otherwise.

That the times never decrease is part of the type. Besides its changes a history knows
how many slots it has **reserved** for them. A full history doubles its slots on the next
change. The estimate of its size in memory (`History.footprint`) counts a header, every
reserved slot whether it is used or not, and the bits of the vectors, which are stored
outside of the slots at one byte each. All sizes are in bytes of a 64-bit machine.

A `Cursor` steps through the changes of a history. It always knows how many changes are
still ahead, and at the end it stays where it is, however often it is asked for more.
-/

namespace Waveform

/-- The changes are in the order of their times. Equal times are allowed, so that it is `≤` that
holds between any two of them. -/
def InTimeOrder (changes : List Change) : Prop :=
  changes.Pairwise fun a b => a.time ≤ b.time

instance (changes : List Change) : Decidable (InTimeOrder changes) :=
  inferInstanceAs (Decidable (changes.Pairwise _))

/-- The **history** of a signal: its changes `InTimeOrder`, and the slots that are reserved for
them. -/
structure History where
  /-- The changes recorded so far. -/
  changes : Array Change
  /-- The number of slots that have been set aside for changes. -/
  reserved : Nat
  inTimeOrder : InTimeOrder changes.toList
  size_le_reserved : changes.size ≤ reserved

/-- A change was offered that is **out of order**: its `time` is earlier than the `last` one. -/
structure OutOfOrder where
  /-- The time of the last recorded change. -/
  last : Time
  /-- The time of the change that was offered. -/
  time : Time
  deriving DecidableEq

/-- The rejection in words. -/
def OutOfOrder.message (e : OutOfOrder) : String :=
  s!"change at {e.time} comes before the last recorded change at {e.last}"

namespace History

/-- A history without changes, and with slots for some. -/
def withSlots (slots : Nat) : History where
  changes := #[]
  reserved := slots
  inTimeOrder := List.Pairwise.nil
  size_le_reserved := Nat.zero_le slots

/-- The history without changes and without slots, as a signal has it when it is declared. -/
def empty : History := withSlots 0

instance : Inhabited History := ⟨empty⟩

/-! ### Views -/

/-- The changes as a list. -/
def toList (h : History) : List Change := h.changes.toList

/-- The number of changes. -/
def size (h : History) : Nat := h.changes.size

/-- There are no changes. -/
def isEmpty (h : History) : Bool := h.changes.isEmpty

/-- The change at an index. -/
def get? (h : History) (index : Nat) : Option Change := h.changes[index]?

/-- The time of the first change, from which the `Extent` of a recording is found together with
`lastTime?`. -/
def firstTime? (h : History) : Option Time := h.changes[0]?.map Change.time

/-- The time of the last change. -/
def lastTime? (h : History) : Option Time := h.changes.back?.map Change.time

/-- The times of all changes, in the order of `toList`. -/
def times (h : History) : List Time := h.toList.map Change.time

/-- Equality of recorded changes, each of them by `Change.sameAs`. Reserved slots do not
matter. -/
def sameAs (a b : History) : Bool :=
  a.size == b.size && (a.toList.zip b.toList).all fun (x, y) => x.sameAs y

/-- A one-line summary: the number of changes and the times of the first and the last. -/
def summary (h : History) : String :=
  match h.firstTime?, h.lastTime? with
  | some first, some last => s!"HistoryChain({h.size} changes, {first}..={last})"
  | _, _ => "HistoryChain(empty)"

/-! ### Growth -/

/-- The slots `reserved` once a full history has accepted one more change. -/
def grownSlots (slots : Nat) : Nat := max 4 (2 * slots)

/-- The slots `reserved` after one more change: as many as before while there is room, and else
`grownSlots`. -/
def slotsAfterAppend (h : History) : Nat :=
  if h.size < h.reserved then h.reserved else grownSlots h.reserved

theorem size_lt_slotsAfterAppend (h : History) : h.size < h.slotsAfterAppend := by
  have hle : h.size ≤ h.reserved := h.size_le_reserved
  unfold slotsAfterAppend grownSlots
  by_cases hroom : h.size < h.reserved
  · rw [if_pos hroom]; exact hroom
  · rw [if_neg hroom]; omega

/-- The change may come next: there is no last change, or the `lastTime?` is not later. -/
def Accepts (h : History) (c : Change) : Prop :=
  ∀ last, h.lastTime? = some last → last ≤ c.time

/-- All recorded times are at most `lastTime?`. -/
theorem time_le_of_lastTime? {h : History} {last : Time} (hl : h.lastTime? = some last) :
    ∀ c ∈ h.toList, c.time ≤ last := by
  obtain ⟨changes, _, order, _⟩ := h
  obtain ⟨l⟩ := changes
  simp only [lastTime?, toList, List.back?_toArray] at hl ⊢
  simp only [InTimeOrder] at order
  intro c hc
  obtain ⟨d, hd, rfl⟩ := Option.map_eq_some_iff.mp hl
  obtain ⟨init, rfl⟩ := List.getLast?_eq_some_iff.mp hd
  rcases List.mem_append.mp hc with hi | hi
  · exact (List.pairwise_append.mp order).2.2 c hi d (by simp)
  · simp only [List.mem_singleton] at hi
    exact hi ▸ Int64.le_refl d.time

/-- An accepted change keeps the changes `InTimeOrder`. -/
theorem Accepts.inTimeOrder_push {h : History} {c : Change} (ha : h.Accepts c) :
    InTimeOrder (h.changes.push c).toList := by
  simp only [InTimeOrder, Array.toList_push]
  refine List.pairwise_append.mpr ⟨h.inTimeOrder, List.pairwise_singleton _ _, ?_⟩
  intro a hmem b hb
  simp only [List.mem_singleton] at hb
  subst hb
  cases hl : h.lastTime? with
  | some last => exact Int64.le_trans (time_le_of_lastTime? hl a hmem) (ha last hl)
  | none =>
    have : h.changes = #[] := by simpa [lastTime?] using hl
    simp [this] at hmem

/-- Adds an accepted change. The slots are counted before the array is touched, so that it can be
extended in place. -/
def push (h : History) (c : Change) (ha : h.Accepts c) : History :=
  let slots := h.slotsAfterAppend
  { changes := h.changes.push c
    reserved := slots
    inTimeOrder := ha.inTimeOrder_push
    size_le_reserved := by
      rw [Array.size_push]
      exact h.size_lt_slotsAfterAppend }

/-- What is wrong with the time of a change that is offered, if anything.
`accepts_of_outOfOrder?` is the other case. -/
def outOfOrder? (h : History) (time : Time) : Option OutOfOrder :=
  match h.lastTime? with
  | none => none
  | some last => if time < last then some ⟨last, time⟩ else none

theorem accepts_of_outOfOrder? {h : History} {c : Change} (ho : h.outOfOrder? c.time = none) :
    h.Accepts c := by
  intro last hl
  simp only [outOfOrder?, hl] at ho
  split at ho
  · simp at ho
  · rename_i hlt
    simpa using hlt

/-- Offers a change. It is recorded by `push`, unless it is earlier than the last one. -/
def append (h : History) (c : Change) : Except OutOfOrder History :=
  match ho : h.outOfOrder? c.time with
  | some e => .error e
  | none => .ok (h.push c (accepts_of_outOfOrder? ho))

/-- Offers changes one after the other by `append`, and stops at the first that is out of
order. -/
def appendAll (h : History) : List Change → Except OutOfOrder History
  | [] => .ok h
  | c :: cs =>
    match h.append c with
    | .error e => .error e
    | .ok h' => h'.appendAll cs

/-- Builds a history from changes in order, with one slot for each. `appendAll` refuses them when
they are not. -/
def ofList (changes : List Change) : Except OutOfOrder History :=
  (withSlots changes.length).appendAll changes

/-! ### How operations look through the view -/

@[simp] theorem toList_withSlots (slots : Nat) : (withSlots slots).toList = [] := rfl

@[simp] theorem toList_push (h : History) (c : Change) (ha : h.Accepts c) :
    (h.push c ha).toList = h.toList ++ [c] := by
  simp [push, toList]

theorem length_toList (h : History) : h.toList.length = h.size := rfl

theorem lastTime?_eq_getLast? (h : History) : h.lastTime? = h.toList.getLast?.map Change.time := by
  obtain ⟨⟨changes⟩, _, _, _⟩ := h
  simp [lastTime?, toList]

/-- A change is refused for exactly the reason that `outOfOrder?` gives. -/
theorem append_eq_error_iff {h : History} {c : Change} {e : OutOfOrder} :
    h.append c = .error e ↔ h.outOfOrder? c.time = some e := by
  unfold append
  split
  · rename_i ho
    rw [ho, Except.error.injEq, Option.some.injEq]
  · rename_i ho
    simp [ho]

/-- An accepted change is added at the end by `push`, and nothing else happens. -/
theorem append_eq_ok_iff {h h' : History} {c : Change} :
    h.append c = .ok h' ↔
      ∃ ha : h.Accepts c, h' = h.push c ha ∧ h.outOfOrder? c.time = none := by
  unfold append
  split
  · rename_i ho
    simp [ho]
  · rename_i ho
    rw [Except.ok.injEq]
    exact ⟨fun heq => ⟨accepts_of_outOfOrder? ho, heq.symm, ho⟩,
      fun ⟨_, heq, _⟩ => heq.symm⟩

theorem toList_append {h h' : History} {c : Change} (hok : h.append c = .ok h') :
    h'.toList = h.toList ++ [c] := by
  obtain ⟨ha, rfl, -⟩ := append_eq_ok_iff.mp hok
  exact toList_push h c ha

/-! ### Size in memory -/

/-- The size of a history without slots. -/
def headerSize : Nat := 24

/-- The size of one slot. -/
def slotSize : Nat := 32

/-- The bytes that vectors take up outside of the slots, the `Value.payloadSize` of all
changes. -/
def payloadSize (h : History) : Nat :=
  h.toList.foldr (fun c total => c.value.payloadSize + total) 0

/-- The **footprint** of a history: its estimated size in bytes, with `slotSize` for every
reserved slot. -/
def footprint (h : History) : Nat := headerSize + slotSize * h.reserved + h.payloadSize

end History

/-! ### Reading in order -/

/-- A position within a `History`. -/
structure Cursor where
  history : History
  /-- Index of the change that comes next. -/
  offset : Nat

/-- A cursor before the first change. -/
def History.cursor (h : History) : Cursor := ⟨h, 0⟩

namespace Cursor

/-- The next change, and the cursor behind it. At the end the cursor stays at its `offset`. -/
def next (c : Cursor) : Option Change × Cursor :=
  match c.history.get? c.offset with
  | none => (none, c)
  | some change => (some change, { c with offset := c.offset + 1 })

/-- The number of changes ahead of the cursor. -/
def remaining (c : Cursor) : Nat := c.history.size - c.offset

/-- What is announced about the number of changes ahead: a lower bound, and an upper one. Both
are `remaining`. -/
def sizeHint (c : Cursor) : Nat × Option Nat := (c.remaining, some c.remaining)

/-- One step of a cursor: how many changes were ahead, and what came `next`. -/
structure Step where
  remaining : Nat
  change? : Option Change

/-- Takes a number of steps by `next`, past the end if need be. -/
def take (c : Cursor) : Nat → List Step × Cursor
  | 0 => ([], c)
  | n + 1 =>
    let (change?, c') := c.next
    let (steps, last) := c'.take n
    (⟨c.remaining, change?⟩ :: steps, last)

end Cursor

end Waveform
