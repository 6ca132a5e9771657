import Waveform.History

/-!
# Times of Change

The times at which any of several histories changes, in increasing order and each of them
once, come from a merge of the histories. Every history contributes a **track**, the list
of its times that have not been used yet. The merge takes the least time in front of any
track, over and over, and skips a time that it has just emitted.

Which track goes first when several are at the same time does not matter. The merge is
therefore written over any `Selection`, a way to pick a track of least time, and
`Selection.firstLeast` is the one that the library runs.
-/

namespace Waveform

/-- The unused times of one history: the `next` one, and those after it. -/
structure Track where
  time : Time
  rest : List Time

namespace Track

/-- The `Track` of a list of times, if it has any. -/
def ofTimes? : List Time → Option Track
  | [] => none
  | time :: rest => some ⟨time, rest⟩

/-- The number of unused times of a track. -/
def length (t : Track) : Nat := t.rest.length + 1

/-- The number of unused times on all tracks, which falls with every turn of `mergeInto`. -/
def total (tracks : List Track) : Nat := tracks.foldr (fun t total => t.length + total) 0

@[simp] theorem total_cons (t : Track) (tracks : List Track) :
    total (t :: tracks) = t.length + total tracks := rfl

/-- The order of the tracks does not matter to their `total`. -/
theorem total_eq_of_perm {tracks tracks' : List Track} (h : List.Perm tracks tracks') :
    total tracks = total tracks' := by
  induction h with
  | nil => rfl
  | cons t _ ih => rw [total_cons, total_cons, ih]
  | swap t o ts =>
    simp only [total_cons]
    omega
  | trans _ _ ih ih' => exact ih.trans ih'

end Track

/-- A way to pick a `Track` of **least time**. Among several such tracks any will do. -/
structure Selection where
  /-- The chosen track and the others. -/
  pick : List Track → Option (Track × List Track)
  /-- Only an empty list has no track to pick. -/
  pick_eq_none : ∀ tracks, pick tracks = none → tracks = []
  /-- A `pick` loses no track and invents none. -/
  perm_of_pick : ∀ tracks t others, pick tracks = some (t, others) →
    List.Perm tracks (t :: others)
  /-- No other track has an earlier time. -/
  least_of_pick : ∀ tracks t others, pick tracks = some (t, others) →
    ∀ o ∈ others, t.time ≤ o.time

namespace Selection

/-- Walks through the tracks and keeps the `best` one so far apart from the others. -/
def sift (best : Track) : List Track → Track × List Track
  | [] => (best, [])
  | t :: ts =>
    if t.time < best.time then
      let (least, others) := sift t ts
      (least, best :: others)
    else
      let (least, others) := sift best ts
      (least, t :: others)

/-- The first track of least time, by `sift`. -/
def pickFirst : List Track → Option (Track × List Track)
  | [] => none
  | t :: ts => some (sift t ts)

theorem perm_sift (best : Track) (tracks : List Track) :
    List.Perm (best :: tracks) ((sift best tracks).1 :: (sift best tracks).2) := by
  induction tracks generalizing best with
  | nil => exact List.Perm.refl _
  | cons t ts ih =>
    simp only [sift]
    split
    · exact ((ih t).cons best).trans (List.Perm.swap _ _ _)
    · exact (List.Perm.swap _ _ _).trans (((ih best).cons t).trans (List.Perm.swap _ _ _))

theorem sift_le_best (best : Track) (tracks : List Track) :
    (sift best tracks).1.time ≤ best.time := by
  induction tracks generalizing best with
  | nil => exact Int64.le_refl _
  | cons t ts ih =>
    simp only [sift]
    split
    · rename_i hlt
      exact Int64.le_trans (ih t) (Int64.le_of_lt hlt)
    · exact ih best

theorem sift_least (best : Track) (tracks : List Track) :
    ∀ o ∈ (sift best tracks).2, (sift best tracks).1.time ≤ o.time := by
  induction tracks generalizing best with
  | nil => simp [sift]
  | cons t ts ih =>
    intro o ho
    simp only [sift] at ho ⊢
    split at ho
    · rename_i hlt
      rw [if_pos hlt]
      rcases List.mem_cons.mp ho with rfl | ho
      · exact Int64.le_trans (sift_le_best t ts) (Int64.le_of_lt hlt)
      · exact ih t o ho
    · rename_i hlt
      rw [if_neg hlt]
      rcases List.mem_cons.mp ho with rfl | ho
      · exact Int64.le_trans (sift_le_best best ts) (Int64.not_lt.mp hlt)
      · exact ih best o ho

/-- Picks the first track of least time (`pickFirst`). -/
def firstLeast : Selection where
  pick := pickFirst
  pick_eq_none tracks h := by
    cases tracks with
    | nil => rfl
    | cons t ts => simp [pickFirst] at h
  perm_of_pick tracks t others h := by
    cases tracks with
    | nil => simp [pickFirst] at h
    | cons s ss =>
      simp only [pickFirst, Option.some.injEq] at h
      have hp := perm_sift s ss
      rwa [h] at hp
  least_of_pick tracks t others h := by
    cases tracks with
    | nil => simp [pickFirst] at h
    | cons s ss =>
      simp only [pickFirst, Option.some.injEq] at h
      have hl := sift_least s ss
      rwa [h] at hl

end Selection

namespace ChangeTimes

/-- Adds a time to those emitted so far, unless it is the latest of them. -/
def emit (emitted : Array Time) (time : Time) : Array Time :=
  if emitted.back? = some time then emitted else emitted.push time

/-- Puts what is left of a track back to the others. -/
def putBack (t : Track) (others : List Track) : List Track :=
  match Track.ofTimes? t.rest with
  | none => others
  | some next => next :: others

theorem total_putBack (t : Track) (others : List Track) :
    Track.total (putBack t others) = t.rest.length + Track.total others := by
  obtain ⟨time, rest⟩ := t
  cases rest with
  | nil => simp [putBack, Track.ofTimes?]
  | cons next rest => simp [putBack, Track.ofTimes?, Track.length]

/-- Taking a time off a track and putting the track back (`putBack`) leaves fewer times in
`total`. -/
theorem total_putBack_lt {tracks others : List Track} {t : Track}
    (hperm : List.Perm tracks (t :: others)) :
    Track.total (putBack t others) < Track.total tracks := by
  rw [Track.total_eq_of_perm hperm, Track.total_cons, total_putBack, Track.length]
  omega

/-- Takes the least time in front of any track until all tracks are used up. Which of several
tracks with that time is used is up to the `Selection`. -/
def mergeInto (s : Selection) (emitted : Array Time) (tracks : List Track) : Array Time :=
  match _h : s.pick tracks with
  | none => emitted
  | some (t, others) => mergeInto s (emit emitted t.time) (putBack t others)
termination_by Track.total tracks
decreasing_by exact total_putBack_lt (s.perm_of_pick tracks t others _h)

/-- Merges lists of times by a given `Selection`, from a track for each of them. -/
def mergeWith (s : Selection) (times : List (List Time)) : List Time :=
  (mergeInto s #[] (times.filterMap Track.ofTimes?)).toList

/-- Merges lists of times by `firstLeast`. -/
def merge (times : List (List Time)) : List Time := mergeWith .firstLeast times

end ChangeTimes

/-- The **times of change** of some histories: the `merge` of their times, in increasing order
and each of them once. -/
def changeTimes (histories : List History) : List Time :=
  ChangeTimes.merge (histories.map History.times)

end Waveform
