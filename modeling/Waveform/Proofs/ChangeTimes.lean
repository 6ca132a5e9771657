import Mathlib.Logic.Relation
import Waveform.ChangeTimes

/-!
# The Merge is the Sorted Union

The times of change come from a merge that takes a time off some track, over and over.
Which track it is when several are at the same time is left open, so the merge is studied
as a relation: one `ChangeTimes.Round` takes the time in front of any track of least time,
emits it unless it was the last one emitted, and puts the rest of the track back.

A single invariant, `ChangeTimes.Merging`, describes the state between two rounds. What is
emitted is strictly increasing and not later than what is left, every track is in order,
and what is emitted and what is left make up all times together.

* `ChangeTimes.Merging.round`: every round keeps the invariant.
* `ChangeTimes.total_lt_of_round`: every round uses up one time, so the rounds come to an
  end (`ChangeTimes.wellFounded_round`).
* `ChangeTimes.rounds_mergeInto`: the merge that runs is one such sequence of rounds,
  whatever its selection.
* `changeTimes_sorted_union`: every sequence of rounds ends with the same list, and that
  list has each time of any history once, in increasing order.
-/

open Relation

namespace Waveform

namespace Track

/-- All unused times of a track. -/
def times (t : Track) : List Time := t.time :: t.rest

/-- The unused `times` are in order. -/
def InOrder (t : Track) : Prop := t.times.Pairwise (· ≤ ·)

theorem ofTimes?_eq_some_iff {times : List Time} {t : Track} :
    ofTimes? times = some t ↔ times = t.times := by
  cases times with
  | nil => simp [ofTimes?, Track.times]
  | cons time rest =>
      obtain ⟨time', rest'⟩ := t
      simp [ofTimes?, Track.times]

end Track

namespace ChangeTimes

/-! ### Rounds -/

/-- The state of a merge: the times emitted so far, and the tracks that are left. -/
structure State where
  emitted : Array Time
  tracks : List Track

/-- The state before the first round. -/
def start (histories : List History) : State :=
  ⟨#[], (histories.map History.times).filterMap Track.ofTimes?⟩

/-- One **round** of a merge. Any track of least time may be the one that is taken, whatever a
`Selection` would do. -/
inductive Round : State → State → Prop
  | take {emitted : Array Time} {tracks others : List Track} {t : Track} :
      List.Perm tracks (t :: others) → (∀ o ∈ others, t.time ≤ o.time) →
      Round ⟨emitted, tracks⟩ ⟨emit emitted t.time, putBack t others⟩

/-- A `Round` can be made as long as there is a track. -/
theorem exists_round {s : State} (hs : s.tracks ≠ []) : ∃ s', Round s s' := by
  obtain ⟨emitted, tracks⟩ := s
  cases hpick : Selection.firstLeast.pick tracks with
  | none => exact absurd (Selection.firstLeast.pick_eq_none tracks hpick) hs
  | some found =>
      obtain ⟨t, others⟩ := found
      exact ⟨_, Round.take (Selection.firstLeast.perm_of_pick tracks t others hpick)
        (Selection.firstLeast.least_of_pick tracks t others hpick)⟩

/-- Every `Round` uses up one time. -/
theorem total_lt_of_round {s s' : State} (hr : Round s s') :
    Track.total s'.tracks < Track.total s.tracks := by
  obtain ⟨hperm, -⟩ := hr
  exact total_putBack_lt hperm

/-- There is no endless sequence of `Round`s. -/
theorem wellFounded_round : WellFounded fun s' s => Round s s' :=
  Subrelation.wf total_lt_of_round
    (InvImage.wf (fun s : State => Track.total s.tracks) Nat.lt_wfRel.wf)

/-- The merge by any `Selection` is a sequence of rounds that leaves no track. -/
theorem rounds_mergeInto (s : Selection) (emitted : Array Time) (tracks : List Track) :
    ReflTransGen Round ⟨emitted, tracks⟩ ⟨mergeInto s emitted tracks, []⟩ := by
  induction hn : Track.total tracks using Nat.strongRecOn generalizing emitted tracks with
  | ind n ih =>
      rw [mergeInto]
      split
      · rename_i hpick
        rw [s.pick_eq_none tracks hpick]
      · rename_i t others hpick
        have hround : Round ⟨emitted, tracks⟩ ⟨emit emitted t.time, putBack t others⟩ :=
          Round.take (s.perm_of_pick tracks t others hpick) (s.least_of_pick tracks t others hpick)
        have hless := total_lt_of_round hround
        exact ReflTransGen.head hround (ih _ (hn ▸ hless) _ _ rfl)

/-! ### What a round emits and puts back -/

/-- `emit` adds a time to those emitted, and nothing else. -/
theorem mem_emit_iff {emitted : Array Time} {time e : Time} :
    e ∈ emit emitted time ↔ e ∈ emitted ∨ e = time := by
  rw [emit]
  split
  · rename_i hlast
    refine ⟨Or.inl, ?_⟩
    rintro (hmem | rfl)
    · exact hmem
    · exact Array.mem_of_back? hlast
  · exact Array.mem_push

/-- A time that is emitted after strictly increasing ones, none of them later, keeps them
strictly increasing: when it equals the last one, it is not emitted again. -/
theorem pairwise_emit {emitted : Array Time} {time : Time}
    (increasing : emitted.toList.Pairwise (· < ·)) (hle : ∀ e ∈ emitted, e ≤ time) :
    (emit emitted time).toList.Pairwise (· < ·) := by
  rw [emit]
  split
  · exact increasing
  · rename_i hlast
    rw [Array.toList_push]
    refine List.pairwise_append.mpr ⟨increasing, List.pairwise_singleton _ _, ?_⟩
    intro e he f hf
    obtain rfl : f = time := by simpa using hf
    refine Int64.lt_of_le_of_ne (hle e (Array.mem_toList_iff.mp he)) ?_
    -- were the time emitted before, then as the greatest, and hence as the last one
    rintro rfl
    obtain ⟨init, last, hsplit⟩ : ∃ init last, emitted.toList = init ++ [last] :=
      ⟨_, _, (List.dropLast_concat_getLast (List.ne_nil_of_mem he)).symm⟩
    have hback : emitted.back? = some last := by
      rw [← Array.getLast?_toList, hsplit, List.getLast?_concat]
    rw [hsplit] at he increasing
    rcases List.mem_append.mp he with hinit | hlast'
    · have hlt : e < last := (List.pairwise_append.mp increasing).2.2 e hinit last (by simp)
      have hge : last ≤ e := hle last (Array.mem_of_back? hback)
      exact absurd hlt (Int64.not_lt.mpr hge)
    · obtain rfl : e = last := by simpa using hlast'
      exact hlast hback

/-- `putBack` returns what is left of a track to the others, unless nothing is left. -/
theorem mem_putBack_iff {t o : Track} {others : List Track} :
    o ∈ putBack t others ↔ t.rest = o.times ∨ o ∈ others := by
  rw [putBack]
  cases hrest : Track.ofTimes? t.rest with
  | none =>
      have hne : t.rest ≠ o.times := by
        intro heq
        rw [Track.ofTimes?_eq_some_iff.mpr heq] at hrest
        exact absurd hrest (by simp)
      simp [hne]
  | some next =>
      have hnext := Track.ofTimes?_eq_some_iff.mp hrest
      have heq : t.rest = o.times ↔ o = next := by
        rw [← Track.ofTimes?_eq_some_iff, hrest, Option.some.injEq]
        exact eq_comm
      rw [List.mem_cons, heq]

/-- Taking a time off a track leaves all others where they are. -/
theorem exists_times_iff {tracks others : List Track} {t : Track}
    (hperm : List.Perm tracks (t :: others)) (time : Time) :
    (∃ o ∈ tracks, time ∈ o.times) ↔
      time = t.time ∨ ∃ o ∈ putBack t others, time ∈ o.times := by
  have ht : t ∈ tracks := hperm.mem_iff.mpr List.mem_cons_self
  constructor
  · rintro ⟨o, ho, htime⟩
    rcases List.mem_cons.mp (hperm.mem_iff.mp ho) with rfl | ho
    · rcases List.mem_cons.mp htime with rfl | hleft
      · exact Or.inl rfl
      · cases hrest : o.rest with
        | nil => simp [hrest] at hleft
        | cons next rest =>
            refine Or.inr ⟨⟨next, rest⟩, mem_putBack_iff.mpr (Or.inl hrest), ?_⟩
            rw [Track.times, ← hrest]
            exact hleft
    · exact Or.inr ⟨o, mem_putBack_iff.mpr (Or.inr ho), htime⟩
  · rintro (rfl | ⟨o, ho, htime⟩)
    · exact ⟨t, ht, List.mem_cons_self⟩
    · rcases mem_putBack_iff.mp ho with hback | ho
      · exact ⟨t, ht, List.mem_cons_of_mem _ (hback ▸ htime)⟩
      · exact ⟨o, hperm.mem_iff.mpr (List.mem_cons_of_mem _ ho), htime⟩

/-! ### The invariant -/

/-- The **invariant** between two `Round`s of a merge of all the times that satisfy a
predicate. -/
structure Merging (isTime : Time → Prop) (s : State) : Prop where
  /-- What is emitted is strictly increasing. -/
  increasing : s.emitted.toList.Pairwise (· < ·)
  /-- Every track is `InOrder`. -/
  inOrder : ∀ t ∈ s.tracks, t.InOrder
  /-- Nothing that is emitted is later than anything in front of a track. -/
  emitted_le : ∀ e ∈ s.emitted, ∀ t ∈ s.tracks, e ≤ t.time
  /-- What is emitted and what is left are all times together. -/
  complete : ∀ time, isTime time ↔ time ∈ s.emitted ∨ ∃ t ∈ s.tracks, time ∈ t.times

/-- **Every round keeps the invariant** `Merging`. -/
theorem Merging.round {isTime : Time → Prop} {s s' : State} (hm : Merging isTime s)
    (hr : Round s s') : Merging isTime s' := by
  obtain ⟨hperm, hleast⟩ := hr
  rename_i emitted tracks others t
  obtain ⟨hincreasing, horder, hemitted, hcomplete⟩ := hm
  have ht : t ∈ tracks := hperm.mem_iff.mpr List.mem_cons_self
  have hothers : ∀ o ∈ others, o ∈ tracks :=
    fun o ho => hperm.mem_iff.mpr (List.mem_cons_of_mem _ ho)
  have htimes : t.times.Pairwise (· ≤ ·) := horder t ht
  have hrest : ∀ time ∈ t.rest, t.time ≤ time := (List.pairwise_cons.mp htimes).1
  -- the time that is taken bounds all that is left
  have hbound : ∀ o ∈ putBack t others, t.time ≤ o.time := by
    intro o ho
    rcases mem_putBack_iff.mp ho with hback | ho
    · exact hrest o.time (hback ▸ List.mem_cons_self)
    · exact hleast o ho
  refine ⟨?_, ?_, ?_, ?_⟩
  · exact pairwise_emit hincreasing fun e he => hemitted e he t ht
  · intro o ho
    rcases mem_putBack_iff.mp ho with hback | ho
    · rw [Track.InOrder, ← hback]
      exact (List.pairwise_cons.mp htimes).2
    · exact horder o (hothers o ho)
  · intro e he o ho
    rcases mem_emit_iff.mp he with he | rfl
    · exact Int64.le_trans (hemitted e he t ht) (hbound o ho)
    · exact hbound o ho
  · intro time
    -- a time passes from what is left to what is emitted, and none is lost
    rw [hcomplete time, exists_times_iff hperm, mem_emit_iff, or_assoc]

/-- Any number of `Round`s keeps the invariant. -/
theorem Merging.rounds {isTime : Time → Prop} {s s' : State} (hm : Merging isTime s)
    (hr : ReflTransGen Round s s') : Merging isTime s' := by
  induction hr with
  | refl => exact hm
  | tail _ hround ih => exact ih.round hround

/-! ### From the first round to the last -/

/-- The time is that of a change in some history. -/
def IsTimeOf (histories : List History) (time : Time) : Prop :=
  ∃ h ∈ histories, ∃ c ∈ h.toList, c.time = time

/-- The tracks of the `start` are the histories that have a change. -/
theorem mem_start_tracks_iff {histories : List History} {t : Track} :
    t ∈ (start histories).tracks ↔ ∃ h ∈ histories, h.times = t.times := by
  simp only [start, List.mem_filterMap, List.mem_map, Track.ofTimes?_eq_some_iff]
  constructor
  · rintro ⟨_, ⟨h, hmem, rfl⟩, heq⟩
    exact ⟨h, hmem, heq⟩
  · rintro ⟨h, hmem, heq⟩
    exact ⟨h.times, ⟨h, hmem, rfl⟩, heq⟩

/-- The invariant holds at the `start`. -/
theorem merging_start (histories : List History) :
    Merging (IsTimeOf histories) (start histories) := by
  refine ⟨List.Pairwise.nil, ?_, ?_, ?_⟩
  · intro t ht
    obtain ⟨h, -, heq⟩ := mem_start_tracks_iff.mp ht
    rw [Track.InOrder, ← heq]
    exact List.pairwise_map.mpr h.inTimeOrder
  · intro e he
    simp [start] at he
  · intro time
    have hnone : time ∉ (start histories).emitted := by simp [start]
    simp only [hnone, false_or]
    constructor
    · rintro ⟨h, hmem, c, hc, rfl⟩
      have htime : c.time ∈ h.times := List.mem_map_of_mem hc
      cases htimes : h.times with
      | nil => simp [htimes] at htime
      | cons first rest =>
          refine ⟨⟨first, rest⟩, mem_start_tracks_iff.mpr ⟨h, hmem, htimes⟩, ?_⟩
          rw [Track.times, ← htimes]
          exact htime
    · rintro ⟨t, ht, htime⟩
      obtain ⟨h, hmem, heq⟩ := mem_start_tracks_iff.mp ht
      rw [← heq] at htime
      obtain ⟨c, hc, hct⟩ := List.mem_map.mp htime
      exact ⟨h, hmem, c, hc, hct⟩

/-- When no track is left, the emitted times are all times, in strictly increasing order. -/
theorem of_rounds {histories : List History} {emitted : Array Time}
    (hr : ReflTransGen Round (start histories) ⟨emitted, []⟩) :
    emitted.toList.Pairwise (· < ·) ∧
      ∀ time, time ∈ emitted.toList ↔ IsTimeOf histories time := by
  obtain ⟨hincreasing, -, -, hcomplete⟩ := (merging_start histories).rounds hr
  refine ⟨hincreasing, fun time => ?_⟩
  rw [hcomplete time]
  simp

/-- Strictly increasing lists with the same members are equal. -/
theorem eq_of_mem_iff {l l' : List Time} (hl : l.Pairwise (· < ·)) (hl' : l'.Pairwise (· < ·))
    (hmem : ∀ time, time ∈ l ↔ time ∈ l') : l = l' := by
  have hne : ∀ {a b : Time}, a < b → a ≠ b := by
    rintro a b hlt rfl
    exact Int64.lt_irrefl hlt
  have hperm : List.Perm l l' :=
    (List.perm_ext_iff_of_nodup (hl.imp hne) (hl'.imp hne)).mpr fun time => hmem time
  refine hperm.eq_of_pairwise ?_ hl hl'
  intro a b _ _ hab hba
  exact absurd hab (Int64.not_lt.mpr (Int64.le_of_lt hba))

end ChangeTimes

open ChangeTimes

/-- The merge that runs, `changeTimes`, goes through rounds until no track is left. -/
theorem rounds_changeTimes (histories : List History) :
    ReflTransGen Round (start histories) ⟨(changeTimes histories).toArray, []⟩ := by
  rw [changeTimes, merge, mergeWith, Array.toArray_toList]
  exact rounds_mergeInto _ _ _

/-- The `changeTimes` are strictly increasing. -/
theorem pairwise_changeTimes (histories : List History) :
    (changeTimes histories).Pairwise (· < ·) := by
  simpa using (of_rounds (rounds_changeTimes histories)).1

/-- The `changeTimes` are the times of all changes. -/
theorem mem_changeTimes_iff {histories : List History} {time : Time} :
    time ∈ changeTimes histories ↔ IsTimeOf histories time := by
  simpa using (of_rounds (rounds_changeTimes histories)).2 time

/-- In terms of the histories: one of the `changeTimes` is one that some history has. -/
theorem mem_changeTimes_iff_exists {histories : List History} {time : Time} :
    time ∈ changeTimes histories ↔ ∃ h ∈ histories, time ∈ h.times := by
  simp only [mem_changeTimes_iff, IsTimeOf, History.times, List.mem_map]

/-- **The merge computes the sorted union.** The `changeTimes` are strictly increasing, and they
are exactly the times of the changes in the histories. `Round`s come to an end, one can be made
until no track is left, and however ties are broken they end with this same list. It depends on
the histories only as a set: neither their order nor a repetition matters. -/
theorem changeTimes_sorted_union (histories : List History) :
    (changeTimes histories).Pairwise (· < ·) ∧
      (∀ time, time ∈ changeTimes histories ↔
        ∃ h ∈ histories, ∃ c ∈ h.toList, c.time = time) ∧
      (WellFounded fun s' s => Round s s') ∧
      (∀ s, (∃ s', Round s s') ↔ s.tracks ≠ []) ∧
      (∀ emitted, ReflTransGen Round (start histories) ⟨emitted, []⟩ ↔
        emitted.toList = changeTimes histories) ∧
      (∀ others : List History, (∀ h, h ∈ others ↔ h ∈ histories) →
        changeTimes others = changeTimes histories) := by
  refine ⟨pairwise_changeTimes histories, fun _ => mem_changeTimes_iff, wellFounded_round,
    ?_, ?_, ?_⟩
  · intro s
    refine ⟨?_, exists_round⟩
    rintro ⟨s', hround⟩ hnil
    have hless := total_lt_of_round hround
    simp [hnil, Track.total] at hless
  · intro emitted
    constructor
    · intro hr
      obtain ⟨hincreasing, hmem⟩ := of_rounds hr
      refine eq_of_mem_iff hincreasing (pairwise_changeTimes histories) fun time => ?_
      rw [hmem, mem_changeTimes_iff]
    · intro heq
      have hr := rounds_changeTimes histories
      rwa [← heq, Array.toArray_toList] at hr
  · intro others hsame
    refine eq_of_mem_iff (pairwise_changeTimes others) (pairwise_changeTimes histories) ?_
    intro time
    rw [mem_changeTimes_iff, mem_changeTimes_iff, IsTimeOf, IsTimeOf]
    simp only [hsame]

/-- Two histories with a time in common, listed in either order and one of them twice. -/
theorem changeTimes_sorted_union_swapped :
    let fast : History := ⟨#[⟨1, .scalar .one⟩, ⟨3, .scalar .zero⟩], 4, by decide, by decide⟩
    let slow : History := ⟨#[⟨3, .scalar .x⟩, ⟨3, .scalar .one⟩], 2, by decide, by decide⟩
    (∀ h, h ∈ [slow, fast, slow] ↔ h ∈ [fast, slow]) ∧
      changeTimes [slow, fast, slow] = changeTimes [fast, slow] := by
  intro fast slow
  have hsame : ∀ h, h ∈ [slow, fast, slow] ↔ h ∈ [fast, slow] := by
    intro h
    simp only [List.mem_cons, List.not_mem_nil, or_false]
    constructor
    · rintro (hslow | hfast | hslow)
      · exact Or.inr hslow
      · exact Or.inl hfast
      · exact Or.inr hslow
    · rintro (hfast | hslow)
      · exact Or.inr (Or.inl hfast)
      · exact Or.inl hslow
  exact ⟨hsame, (changeTimes_sorted_union [fast, slow]).2.2.2.2.2 _ hsame⟩

end Waveform
