import Waveform.TimeAxis

/-!
# The Extent Spans all Times

An extent is found from the ends of the histories alone. It is nevertheless the extent of all
times that were recorded: it starts at the earliest of them and stops at the latest
(`Extent.ofSignals?_eq_some_iff`), and it is missing only where there are no times
(`Extent.exists_ofSignals?`).

The earliest and the latest of some times are the same notion in two orders. `Extreme` takes
the order as a parameter, so that each fact about it is shown once.
-/

namespace Waveform

/-! ### Extremes -/

/-- An **extreme** of some times in an order: one of them that comes before all of them. -/
def Extreme (before : Time → Time → Prop) (time : Time) (times : List Time) : Prop :=
  time ∈ times ∧ ∀ u ∈ times, before time u

section

variable (before : Time → Time → Prop) {choose : Time → Time → Time}

/-- To choose the better of two times over and over finds an `Extreme`. -/
theorem extreme_foldl (hrefl : ∀ t, before t t)
    (htrans : ∀ t u v, before t u → before u v → before t v)
    (hchoose : ∀ t u, choose t u = t ∧ before t u ∨ choose t u = u ∧ before u t)
    (time : Time) (times : List Time) :
    Extreme before (times.foldl choose time) (time :: times) := by
  induction times generalizing time with
  | nil => exact ⟨List.mem_singleton_self _, fun u hu => List.mem_singleton.mp hu ▸ hrefl _⟩
  | cons next times ih =>
      obtain ⟨hmem, hbefore⟩ := ih (choose time next)
      obtain ⟨hhead, hrest⟩ := List.forall_mem_cons.mp hbefore
      rw [List.foldl_cons]
      rcases hchoose time next with ⟨hsame, hnext⟩ | ⟨hsame, htime⟩
      · rw [hsame] at hmem hhead hrest ⊢
        refine ⟨?_, List.forall_mem_cons.mpr ⟨hhead, List.forall_mem_cons.mpr ⟨?_, hrest⟩⟩⟩
        · rcases List.mem_cons.mp hmem with heq | hmem
          · rw [heq]
            exact List.mem_cons_self
          · exact List.mem_cons_of_mem _ (List.mem_cons_of_mem _ hmem)
        · exact htrans _ _ _ hhead hnext
      · rw [hsame] at hmem hhead hrest ⊢
        refine ⟨List.mem_cons_of_mem _ hmem, List.forall_mem_cons.mpr ⟨?_, ?_⟩⟩
        · exact htrans _ _ _ hhead htime
        · exact List.forall_mem_cons.mpr ⟨hhead, hrest⟩

/-- Where there are no two ways around, there is only one `Extreme`. -/
theorem Extreme.unique {before : Time → Time → Prop}
    (hantisymm : ∀ t u, before t u → before u t → t = u) {t u : Time}
    {times : List Time} (ht : Extreme before t times) (hu : Extreme before u times) : t = u :=
  hantisymm t u (ht.2 u hu.1) (hu.2 t ht.1)

/-- The `Extreme`s of some times are those of any of them that come before all the others. -/
theorem extreme_iff_of_ends (htrans : ∀ t u v, before t u → before u v → before t v)
    (hantisymm : ∀ t u, before t u → before u t → t = u) {ends times : List Time}
    (hsub : ∀ t ∈ ends, t ∈ times) (hends : ∀ t ∈ times, ∃ u ∈ ends, before u t) (time : Time) :
    Extreme before time ends ↔ Extreme before time times := by
  constructor
  · rintro ⟨hmem, hbefore⟩
    refine ⟨hsub time hmem, fun t ht => ?_⟩
    obtain ⟨u, hu, hut⟩ := hends t ht
    exact htrans _ _ _ (hbefore u hu) hut
  · rintro ⟨hmem, hbefore⟩
    obtain ⟨u, hu, hut⟩ := hends time hmem
    obtain rfl : u = time := hantisymm _ _ hut (hbefore u (hsub u hu))
    exact ⟨hu, fun t ht => hbefore t (hsub t ht)⟩

end

namespace Extent

theorem earlier_cases (t u : Time) : earlier t u = t ∧ t ≤ u ∨ earlier t u = u ∧ u ≤ t := by
  rw [earlier]
  split
  · rename_i hlt
    exact Or.inr ⟨rfl, Int64.le_of_lt hlt⟩
  · rename_i hle
    exact Or.inl ⟨rfl, Int64.not_lt.mp hle⟩

theorem later_cases (t u : Time) : later t u = t ∧ u ≤ t ∨ later t u = u ∧ t ≤ u := by
  rw [later]
  split
  · rename_i hlt
    exact Or.inr ⟨rfl, Int64.le_of_lt hlt⟩
  · rename_i hle
    exact Or.inl ⟨rfl, Int64.not_lt.mp hle⟩

/-- `earliest?` finds the `Extreme` of some times in the order of time. -/
theorem earliest?_eq_some_iff {times : List Time} {time : Time} :
    earliest? times = some time ↔ Extreme (· ≤ ·) time times := by
  cases times with
  | nil => simp [earliest?, Extreme]
  | cons t ts =>
      have hfold := extreme_foldl (· ≤ ·) Int64.le_refl (fun _ _ _ => Int64.le_trans)
        earlier_cases t ts
      rw [earliest?, Option.some.injEq]
      exact ⟨fun heq => heq ▸ hfold, hfold.unique fun _ _ => Int64.le_antisymm⟩

/-- `latest?` finds the `Extreme` of some times in the opposite order. -/
theorem latest?_eq_some_iff {times : List Time} {time : Time} :
    latest? times = some time ↔ Extreme (· ≥ ·) time times := by
  cases times with
  | nil => simp [latest?, Extreme]
  | cons t ts =>
      have hfold := extreme_foldl (· ≥ ·) Int64.le_refl (fun _ _ _ => flip Int64.le_trans)
        later_cases t ts
      rw [latest?, Option.some.injEq]
      exact ⟨fun heq => heq ▸ hfold,
        hfold.unique fun _ _ => flip Int64.le_antisymm⟩

theorem latest?_eq_none_iff {times : List Time} : latest? times = none ↔ times = [] := by
  cases times with
  | nil => simp [latest?]
  | cons t ts => simp [latest?]

end Extent

/-! ### The ends of a history -/

namespace History

variable {h : History} {time : Time}

/-- The first time of a history is its earliest. -/
theorem extreme_firstTime? (hfirst : h.firstTime? = some time) :
    Extreme (· ≤ ·) time h.times := by
  obtain ⟨⟨changes⟩, reserved, order, hsize⟩ := h
  cases changes with
  | nil => simp [firstTime?] at hfirst
  | cons c cs =>
      obtain rfl : c.time = time := by simpa [firstTime?] using hfirst
      refine ⟨List.mem_map_of_mem List.mem_cons_self, ?_⟩
      intro u hu
      obtain ⟨d, hd, rfl⟩ := List.mem_map.mp hu
      rcases List.mem_cons.mp hd with rfl | hd
      · exact Int64.le_refl _
      · exact (List.pairwise_cons.mp order).1 d hd

/-- The last time of a history is its latest. -/
theorem extreme_lastTime? (hlast : h.lastTime? = some time) : Extreme (· ≥ ·) time h.times := by
  refine ⟨?_, ?_⟩
  · rw [lastTime?_eq_getLast?] at hlast
    obtain ⟨d, hd, rfl⟩ := Option.map_eq_some_iff.mp hlast
    exact List.mem_map_of_mem (List.mem_of_getLast? hd)
  · intro u hu
    obtain ⟨c, hc, rfl⟩ := List.mem_map.mp hu
    exact time_le_of_lastTime? hlast c hc

/-- A history that has a time has a first one and a last one. -/
theorem exists_ends (htime : time ∈ h.times) :
    (∃ first, h.firstTime? = some first) ∧ ∃ last, h.lastTime? = some last := by
  obtain ⟨⟨changes⟩, reserved, order, hsize⟩ := h
  cases changes with
  | nil => simp [times, toList] at htime
  | cons c cs =>
      have hlast : (c :: cs).getLast?.isSome := by simp
      obtain ⟨d, hd⟩ := Option.isSome_iff_exists.mp hlast
      refine ⟨⟨c.time, rfl⟩, d.time, ?_⟩
      rw [lastTime?_eq_getLast?]
      exact Option.map_eq_some_iff.mpr ⟨d, hd, rfl⟩

end History

/-! ### The extent of signals -/

namespace Extent

variable {signals : List Signal} {e : Extent}

/-- The times of all changes of some signals, as `Extent.Spans` speaks of them. -/
def timesOf (signals : List Signal) : List Time := signals.flatMap fun s => s.history.times

theorem mem_timesOf_iff {time : Time} :
    time ∈ timesOf signals ↔ ∃ s ∈ signals, time ∈ s.history.times :=
  List.mem_flatMap

/-- The same as `timesOf` for the signals of a recorder or a recording, by their identities. -/
theorem mem_timesOf_toList_iff {signals : Array Signal} (hsize : signals.size < UInt32.size)
    {time : Time} :
    time ∈ timesOf signals.toList ↔
      ∃ (id : SignalId) (s : Signal), signals[id.index]? = some s ∧ time ∈ s.history.times := by
  rw [mem_timesOf_iff]
  constructor
  · rintro ⟨s, hs, htime⟩
    obtain ⟨i, hi⟩ := Array.mem_iff_getElem?.mp (Array.mem_toList_iff.mp hs)
    have hlt : i < signals.size := (Array.getElem?_eq_some_iff.mp hi).1
    exact ⟨⟨i, by omega⟩, s, hi, htime⟩
  · rintro ⟨id, s, hs, htime⟩
    exact ⟨s, Array.mem_toList_iff.mpr (Array.mem_of_getElem? hs), htime⟩

/-- An extent **spans** some times: it starts at the earliest of them, and it stops at the
latest. -/
structure Spans (e : Extent) (times : List Time) : Prop where
  start_mem : e.start ∈ times
  start_le : ∀ time ∈ times, e.start ≤ time
  stop_mem : e.stop ∈ times
  le_stop : ∀ time ∈ times, time ≤ e.stop

/-- When every history that has a time has its `Extreme` at one end, the extreme of these ends is
the extreme of all times. -/
theorem extreme_ends_iff (before : Time → Time → Prop)
    (htrans : ∀ t u v, before t u → before u v → before t v)
    (hantisymm : ∀ t u, before t u → before u t → t = u) {end? : History → Option Time}
    (hextreme : ∀ h t, end? h = some t → Extreme before t h.times)
    (hexists : ∀ h, ∀ t ∈ h.times, ∃ u, end? h = some u) (signals : List Signal) (time : Time) :
    Extreme before time (signals.filterMap fun s => end? s.history) ↔
      Extreme before time (timesOf signals) := by
  refine extreme_iff_of_ends before htrans hantisymm ?_ ?_ time
  · intro t ht
    obtain ⟨s, hs, hend⟩ := List.mem_filterMap.mp ht
    exact mem_timesOf_iff.mpr ⟨s, hs, (hextreme _ _ hend).1⟩
  · intro t ht
    obtain ⟨s, hs, htime⟩ := mem_timesOf_iff.mp ht
    obtain ⟨u, hend⟩ := hexists _ t htime
    exact ⟨u, List.mem_filterMap.mpr ⟨s, hs, hend⟩, (hextreme _ _ hend).2 t htime⟩

/-- **The extent of signals**, by `ofSignals?`, spans the times of all their changes. -/
theorem ofSignals?_eq_some_iff : ofSignals? signals = some e ↔ e.Spans (timesOf signals) := by
  have hstart := extreme_ends_iff (· ≤ ·) (fun _ _ _ => Int64.le_trans)
    (fun _ _ => Int64.le_antisymm) (fun _ _ => History.extreme_firstTime?)
    (fun _ _ ht => (History.exists_ends ht).1) signals e.start
  have hstop := extreme_ends_iff (· ≥ ·) (fun _ _ _ => flip Int64.le_trans)
    (fun _ _ => flip Int64.le_antisymm) (fun _ _ => History.extreme_lastTime?)
    (fun _ _ ht => (History.exists_ends ht).2) signals e.stop
  rw [← earliest?_eq_some_iff] at hstart
  rw [← latest?_eq_some_iff] at hstop
  have hends : ofSignals? signals = some e ↔
      earliest? (signals.filterMap fun s => s.history.firstTime?) = some e.start ∧
        latest? (signals.filterMap fun s => s.history.lastTime?) = some e.stop := by
    obtain ⟨start, stop⟩ := e
    rw [ofSignals?]
    split
    · rename_i hfirst hlast
      simp [hfirst, hlast]
    · rename_i hnone
      simp only [reduceCtorEq, false_iff, not_and]
      exact hnone start stop
  rw [hends, hstart, hstop]
  exact ⟨fun ⟨⟨h1, h2⟩, h3, h4⟩ => ⟨h1, h2, h3, h4⟩,
    fun ⟨h1, h2, h3, h4⟩ => ⟨⟨h1, h2⟩, h3, h4⟩⟩

/-- There is an extent as soon as there is a time. -/
theorem exists_ofSignals? {time : Time} (htime : time ∈ timesOf signals) :
    ∃ e, ofSignals? signals = some e := by
  obtain ⟨s, hs, htime⟩ := mem_timesOf_iff.mp htime
  obtain ⟨⟨first, hfirst⟩, last, hlast⟩ := History.exists_ends htime
  have hfirsts : first ∈ signals.filterMap fun s => s.history.firstTime? :=
    List.mem_filterMap.mpr ⟨s, hs, hfirst⟩
  have hlasts : last ∈ signals.filterMap fun s => s.history.lastTime? :=
    List.mem_filterMap.mpr ⟨s, hs, hlast⟩
  obtain ⟨t, ts, hfirsts⟩ := List.exists_cons_of_ne_nil (List.ne_nil_of_mem hfirsts)
  obtain ⟨u, us, hlasts⟩ := List.exists_cons_of_ne_nil (List.ne_nil_of_mem hlasts)
  rw [ofSignals?, hfirsts, hlasts]
  exact ⟨_, rfl⟩

end Extent

end Waveform
