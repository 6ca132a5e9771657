import Waveform.Proofs.Demo.Ticks
import Waveform.Proofs.Reading.Encoding
import Waveform.Proofs.Reading.Kind
import Waveform.Proofs.Recorder.Acceptance

/-!
# What the Testbench Offers

The testbench is generated by a loop that goes from tick to tick of the clock and keeps a count
on the way. What it offers to each signal can be said without the loop: the clock changes at
every tick, and the counter at every other one, where its value is known from the time alone.
The invariant of the loop ties the count to the number of ticks so far
(`Testbench.changesOf_counter_edges`).

Seen like this, the changes of every signal are in time order, and they have as many bits as the
signal. So the calls are acceptable (`Testbench.acceptable_calls`).
-/

namespace Waveform

namespace Testbench

open Recorder

variable {last time tick : Time} {id : SignalId} {c : Change}

/-! ### What the loop offers -/

/-- The **change of the clock** at a tick: a rise if `isRising` says so. -/
def clockChange (tick : Time) : Change := ⟨tick, .scalar (if isRising tick then .one else .zero)⟩

/-- The number of clock cycles, of two `halfPeriod`s each, up to a rising edge. -/
def cyclesUpTo (tick : Time) : Nat := (tick.toInt.toNat - halfPeriod) / (2 * halfPeriod)

/-- The **change of the counter** at a rising edge, to the `cyclesUpTo` it. -/
def counterChange (tick : Time) : Change := ⟨tick, .ofNat (cyclesUpTo tick) counterWidth⟩

/-- The bits of the counter's first value: none of them is known. -/
def start : List Bit := List.replicate counterWidth .x

/-- The `startText` is a bit string, and these are its bits. -/
theorem parse_startText : Bit.parse startText = .ok start := by
  have hrender : startText = Bit.render start := rfl
  rw [hrender, Bit.parse_render]

/-- The counter is unknown at first. -/
def counterStart : Change := ⟨0, .vector start⟩

/-- The clock rises at every other tick, the second one being the first of them. -/
theorem isRising_iff (hnonneg : 0 ≤ tick.toInt) :
    isRising tick = true ↔ tick.toInt / 5 % 2 = 1 := by
  rw [isRising, decide_eq_true_eq, halfPeriod]
  omega

/-- A step of `edges` offers the clock a change, and the counter only if the clock rises. -/
theorem changesOf_edges_cons (id : SignalId) (count : Nat) (tick : Time) (times : List Time) :
    changesOf id (edges count (tick :: times)) =
      (if clock = id then [clockChange tick] else []) ++
        if isRising tick then
          (if counter = id then [⟨tick, .ofNat (countAfter tick count) counterWidth⟩] else []) ++
            changesOf id (edges (countAfter tick count) times)
        else changesOf id (edges count times) := by
  rw [edges, clockChange]
  by_cases hrising : isRising tick = true
  · rw [if_pos hrising, if_pos hrising, if_pos hrising, changesOf_record_cons,
      changesOf_record_cons]
    split <;> split <;> rfl
  · rw [if_neg hrising, if_neg hrising, if_neg hrising, changesOf_record_cons]
    split <;> rfl

/-- In `edges` the clock is offered a change **at every tick**. -/
theorem changesOf_clock_edges (count : Nat) (times : List Time) :
    changesOf clock (edges count times) = times.map clockChange := by
  have hcounter : counter ≠ clock := by decide
  induction times generalizing count with
  | nil => rfl
  | cons tick times ih =>
      rw [changesOf_edges_cons, if_pos rfl, if_neg hcounter, List.nil_append, ih, ih, ite_self,
        List.map_cons, List.singleton_append]

/-- The `cyclesUpTo` a rising edge are known from its position among the ticks. -/
theorem cyclesUpTo_of_odd {index : Nat} (htick : tick.toInt = 5 * (index : Int))
    (hodd : index % 2 = 1) : cyclesUpTo tick = (index + 1) / 2 - 1 := by
  rw [cyclesUpTo, halfPeriod]
  omega

/-- An edge counts unless the reset is still held, as it is at the first of them. So the count
that is reached is less by one than the number of edges. -/
theorem countAfter_of_odd {index : Nat} (htick : tick.toInt = 5 * (index : Int))
    (hodd : index % 2 = 1) : countAfter tick (index / 2 - 1) = (index + 1) / 2 - 1 := by
  have hreset : resetReleased < tick ↔ 12 < tick.toInt := Int64.lt_iff_toInt_lt
  rw [countAfter]
  by_cases hlate : 12 < tick.toInt
  · rw [if_pos (hreset.mpr hlate)]
    omega
  · rw [if_neg (mt hreset.mp hlate)]
    omega

/-- In `edges` the counter is offered a change **at every rising edge**. The count that has been
reached is known from the position of the next tick. -/
theorem changesOf_counter_edges {index : Nat} {times : List Time}
    (hticks : ∀ (i : Nat) (tick : Time),
      times[i]? = some tick → tick.toInt = 5 * ((index : Int) + i)) :
    changesOf counter (edges (index / 2 - 1) times) =
      (times.filter isRising).map counterChange := by
  have hclock : clock ≠ counter := by decide
  induction times generalizing index with
  | nil => rfl
  | cons tick times ih =>
      have htick : tick.toInt = 5 * (index : Int) := hticks 0 tick rfl
      have hrest : changesOf counter (edges ((index + 1) / 2 - 1) times) =
          (times.filter isRising).map counterChange := ih fun i later hlater => by
        rw [hticks (i + 1) later hlater]
        omega
      have hrising : isRising tick = true ↔ index % 2 = 1 := by
        rw [isRising_iff (by omega)]
        omega
      rw [changesOf_edges_cons, if_neg hclock, if_pos rfl, List.nil_append]
      by_cases hodd : index % 2 = 1
      · rw [if_pos (hrising.mpr hodd), countAfter_of_odd htick hodd, hrest,
          List.filter_cons_of_pos (hrising.mpr hodd), List.map_cons, counterChange,
          cyclesUpTo_of_odd htick hodd, List.singleton_append]
      · have hcount : index / 2 - 1 = (index + 1) / 2 - 1 := by omega
        rw [if_neg (mt hrising.mp hodd), hcount, hrest,
          List.filter_cons_of_neg (mt hrising.mp hodd)]

/-- In `edges` nothing is offered to any other signal. -/
theorem changesOf_edges_of_ne (hclock : clock ≠ id) (hcounter : counter ≠ id) (count : Nat)
    (times : List Time) : changesOf id (edges count times) = [] := by
  induction times generalizing count with
  | nil => rfl
  | cons tick times ih =>
      rw [changesOf_edges_cons, if_neg hclock, if_neg hcounter, List.nil_append, List.nil_append,
        ih, ih, ite_self]

/-- **Every other tick** is a rising edge: these are `ticks` themselves, twice as far apart. -/
theorem filter_isRising_ticks (last : Time) :
    (ticks 0 5 last).filter isRising = ticks 5 10 last := by
  refine ChangeTimes.eq_of_mem_iff ((pairwise_ticks (by decide) 0 last).filter _)
    (pairwise_ticks (by decide) 5 last) fun tick => ?_
  have hfirst : ∀ n : Time, n ≤ tick ↔ n.toInt ≤ tick.toInt := fun n => Int64.le_iff_toInt_le
  have hfive : (5 : Time).toInt = 5 := rfl
  rw [List.mem_filter, mem_ticks_iff (by decide), mem_ticks_iff (by decide), hfirst, hfirst,
    Int64.toInt_zero, hfive]
  constructor
  · rintro ⟨⟨hnonneg, hlast, hsteps⟩, hrising⟩
    rw [isRising_iff hnonneg] at hrising
    exact ⟨by omega, hlast, by omega⟩
  · rintro ⟨hfrom, hlast, hsteps⟩
    exact ⟨⟨by omega, hlast, by omega⟩, (isRising_iff (by omega)).mpr (by omega)⟩

/-! ### What the calls offer -/

/-- The loop is the last part of the `calls`. -/
theorem calls_eq_append (last : Time) :
    calls start last =
      (opening ++ [.record counter counterStart]) ++ edges 0 (multiples halfPeriod last) := by
  rw [calls, continuation, List.append_assoc, List.singleton_append]
  rfl

/-- The `clock` is offered a change at every tick. -/
theorem changesOf_clock (last : Time) :
    changesOf clock (calls start last) = (ticks 0 5 last).map clockChange := by
  rw [calls_eq_append, changesOf_append, changesOf_clock_edges]
  rfl

/-- The `counter` is offered its start, and then a change at every rising edge. -/
theorem changesOf_counter (last : Time) :
    changesOf counter (calls start last) = counterStart :: (ticks 5 10 last).map counterChange := by
  have hticks : ∀ (i : Nat) (tick : Time), (ticks 0 5 last)[i]? = some tick →
      tick.toInt = 5 * (((0 : Nat) : Int) + i) := by
    intro i tick htick
    obtain ⟨htime, -⟩ := (getElem?_ticks (by decide)).mp htick
    rw [htime, Int64.toInt_zero]
    omega
  have hedges := changesOf_counter_edges hticks
  rw [filter_isRising_ticks] at hedges
  rw [calls_eq_append, changesOf_append, multiples_eq_ticks, halfPeriod, hedges]
  rfl

/-- The `reset` is offered two changes. -/
theorem changesOf_reset (last : Time) :
    changesOf reset (calls start last) = [⟨0, .scalar .one⟩, ⟨resetReleased, .scalar .zero⟩] := by
  rw [calls_eq_append, changesOf_append, changesOf_edges_of_ne (by decide) (by decide)]
  rfl

/-! ### Nothing is rejected -/

/-- The signals as the `declarations` leave them. -/
def declaredSignals : Array Signal :=
  #[{ name := "tb.clk", msi := 0, lsi := 0 }, { name := "tb.cycle", msi := 7, lsi := 0 },
    { name := "tb.rst", msi := 0, lsi := 0 }]

/-- The calls of `edges` only offer changes, and only to the clock and the counter. -/
theorem exists_record_of_mem_edges {call : Call} {count : Nat} {times : List Time}
    (hmem : call ∈ edges count times) :
    ∃ id c, call = .record id c ∧ (id = clock ∨ id = counter) := by
  induction times generalizing count with
  | nil => exact absurd hmem List.not_mem_nil
  | cons tick times ih =>
      rw [edges] at hmem
      split at hmem
      · rcases List.mem_cons.mp hmem with rfl | hmem
        · exact ⟨_, _, rfl, Or.inl rfl⟩
        rcases List.mem_cons.mp hmem with rfl | hmem
        · exact ⟨_, _, rfl, Or.inr rfl⟩
        exact ih hmem
      · rcases List.mem_cons.mp hmem with rfl | hmem
        · exact ⟨_, _, rfl, Or.inl rfl⟩
        exact ih hmem

/-- The declarations among the `calls` are those in front. -/
theorem declarations_calls (last : Time) :
    Recorder.declarations (calls start last) = Recorder.declarations declarations := by
  have hedges : Recorder.declarations (edges 0 (multiples halfPeriod last)) = [] := by
    refine List.filter_eq_nil_iff.mpr fun call hmem => ?_
    obtain ⟨id, c, rfl, -⟩ := exists_record_of_mem_edges hmem
    exact Bool.false_ne_true
  rw [calls_eq_append, Recorder.declarations, List.filter_append, ← Recorder.declarations,
    ← Recorder.declarations, hedges, List.append_nil]
  rfl

/-- The timescale is set once. -/
theorem lastTimescale?_calls (last : Time) :
    lastTimescale? (calls start last) = some ⟨1, .nanoseconds⟩ := by
  have hedges : (edges 0 (multiples halfPeriod last)).filterMap Call.timescale? = [] := by
    refine List.filterMap_eq_nil_iff.mpr fun call hmem => ?_
    obtain ⟨id, c, rfl, -⟩ := exists_record_of_mem_edges hmem
    rfl
  rw [lastTimescale?, calls_eq_append, List.filterMap_append, hedges, List.append_nil]
  rfl

theorem signals_declarations (settings : Settings) (last : Time) :
    ((new settings).run (Recorder.declarations (calls start last))).1.signals =
      declaredSignals := by
  rw [declarations_calls]
  rfl

/-- Changes come after the declarations, in the sense of `DeclaredFirst`. -/
theorem declaredFirst_calls (last : Time) : DeclaredFirst 0 (calls start last) := by
  have hedges : ∀ count times, DeclaredFirst 3 (edges count times) := by
    intro count times
    induction times generalizing count with
    | nil => trivial
    | cons tick times ih =>
        rw [edges]
        split
        · exact ⟨by decide, by decide, ih _⟩
        · exact ⟨by decide, ih _⟩
  exact ⟨by decide, by decide, by decide, hedges _ _⟩

/-- The changes are those of the three signals. -/
theorem eq_of_mem_changesOf (hc : c ∈ changesOf id (calls start last)) :
    id = clock ∨ id = counter ∨ id = reset := by
  by_contra hother
  simp only [not_or] at hother
  obtain ⟨hclock, hcounter, hreset⟩ := hother
  rw [calls_eq_append, changesOf_append, changesOf_edges_of_ne (Ne.symm hclock) (Ne.symm hcounter),
    changesOf_append, opening, changesOf_append, changesOf_record_cons, changesOf_record_cons,
    changesOf_record_cons, if_neg (Ne.symm hreset), if_neg (Ne.symm hreset),
    if_neg (Ne.symm hcounter)] at hc
  exact absurd hc List.not_mem_nil

/-- Every change among the `calls` fits its signal. -/
theorem fits_of_mem_changesOf (hc : c ∈ changesOf id (calls start last)) :
    ∃ s, declaredSignals[id.index]? = some s ∧ c.value.Fits s := by
  have hfits : ∀ {v : Value} {s : Signal} {bits : List Bit}, v.bits? = some bits →
      bits.length = (s.msi.toInt - s.lsi.toInt).natAbs + 1 → v.Fits s :=
    fun hbits hlen => Value.fits_iff.mpr (Or.inr (Or.inr ⟨_, hbits, hlen⟩))
  rcases eq_of_mem_changesOf hc with rfl | rfl | rfl
  · rw [changesOf_clock] at hc
    obtain ⟨tick, -, rfl⟩ := List.mem_map.mp hc
    exact ⟨_, rfl, hfits rfl rfl⟩
  · rw [changesOf_counter] at hc
    rcases List.mem_cons.mp hc with rfl | hc
    · exact ⟨_, rfl, hfits rfl rfl⟩
    · obtain ⟨tick, -, rfl⟩ := List.mem_map.mp hc
      exact ⟨_, rfl, hfits rfl (Bit.length_lowBits _ _)⟩
  · rw [changesOf_reset, List.mem_cons, List.mem_singleton] at hc
    rcases hc with rfl | rfl
    · exact ⟨_, rfl, hfits rfl rfl⟩
    · exact ⟨_, rfl, hfits rfl rfl⟩

/-- The changes of every signal are `InTimeOrder`. -/
theorem inTimeOrder_changesOf (id : SignalId) (last : Time) :
    InTimeOrder (changesOf id (calls start last)) := by
  cases hchanges : changesOf id (calls start last) with
  | nil => exact List.Pairwise.nil
  | cons first rest =>
      rw [← hchanges]
      rcases eq_of_mem_changesOf (hchanges ▸ List.mem_cons_self) with rfl | rfl | rfl
      · rw [changesOf_clock]
        exact inTimeOrder_map_ticks (by decide) (fun _ => rfl) 0 last
      · rw [changesOf_counter]
        refine List.pairwise_cons.mpr
          ⟨fun c hc => ?_, inTimeOrder_map_ticks (by decide) (fun _ => rfl) 5 last⟩
        obtain ⟨tick, htick, rfl⟩ := List.mem_map.mp hc
        exact Int64.le_trans (by decide) ((mem_ticks_iff (by decide)).mp htick).1
      · rw [changesOf_reset]
        decide

/-- **The calls are acceptable** in the sense of `Acceptable`, whatever the last time is. -/
theorem acceptable_calls (settings : Settings) (last : Time) :
    Acceptable settings (calls start last) where
  declaredFirst := declaredFirst_calls last
  fits id c hcall := by
    rw [signals_declarations]
    exact fits_of_mem_changesOf (mem_changesOf_iff.mpr hcall)
  inTimeOrder id := inTimeOrder_changesOf id last

end Testbench

end Waveform
