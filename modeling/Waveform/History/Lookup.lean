import Waveform.History

/-!
# Looking up a Time

At any point in time the change **in effect** is the last one that is not later. A scan
from the front finds it (`History.scan?`), in time linear in the length of the history.
`History.inEffect?` finds it by bisection.

Changes that share a time form a **block**, and the bisection may end anywhere inside of
one. `Block.around` walks back to the first change of the block and on to its end, so
that the answer names the whole block: where it starts, how many changes it has, whether
its time is the one that was asked for, and when the next block begins.

The bisection narrows a closed interval of indices. On an array whose first change is
not later than the time asked for, it never leaves the array; should it do so on any
other array, its answer is `none`.
-/

namespace Waveform

/-- The changes that share the time in effect, as `History.blockAt?` finds them. -/
structure Block where
  /-- Index of the first change of the block. -/
  start : Nat
  /-- Number of changes in the block. More than one where there were delta cycles. -/
  count : Nat
  /-- The block's time is the time asked for, and not an earlier one. -/
  exact : Bool
  /-- The time of the first change after the block. -/
  nextTime? : Option Time
  deriving DecidableEq

namespace Block

/-- Index of the last change of the block, which is the one in effect. -/
def last (b : Block) : Nat := b.start + b.count - 1

/-! ### Bisection -/

/-- Bisects the closed interval from `lower` to `upper` for a change at `time`, and ends at
the index before the interval once that is empty. The answer is `none` if the search
would read beyond the array or step below its first index. -/
def bisect? (changes : Array Change) (time : Time) (lower upper : Nat) : Option Nat :=
  if lower ≤ upper then
    let middle := lower + (upper - lower) / 2
    match changes[middle]? with
    | none => none
    | some c =>
      if c.time < time then bisect? changes time (middle + 1) upper
      else if c.time = time then some middle
      else if middle = 0 then none
      else bisect? changes time lower (middle - 1)
  else if lower = 0 then none
  else some (lower - 1)
termination_by upper + 1 - lower

/-- Bisects the whole array by `bisect?`. There is nothing to bisect in an empty one. -/
def hit? (changes : Array Change) (time : Time) : Option Nat :=
  if changes.size = 0 then none else bisect? changes time 0 (changes.size - 1)

/-! ### The block around a hit -/

/-- The change at the index has the time. -/
def hasTime (changes : Array Change) (time : Time) (index : Nat) : Bool :=
  changes[index]?.map Change.time = some time

/-- Walks back from an index while the change before it `hasTime`. -/
def startFrom (changes : Array Change) (time : Time) : Nat → Nat
  | 0 => 0
  | i + 1 => if hasTime changes time i then startFrom changes time i else i + 1

/-- Walks on from an index while the change there `hasTime`. -/
def stopFrom (changes : Array Change) (time : Time) (index : Nat) : Nat :=
  if index < changes.size then
    if hasTime changes time index then stopFrom changes time (index + 1) else index
  else index
termination_by changes.size - index

/-- The block of the change at an index, as the answer to a search for `time`. -/
def around (changes : Array Change) (time : Time) (index : Nat) (c : Change) : Block :=
  let start := startFrom changes c.time index
  let stop := stopFrom changes c.time (start + 1)
  { start := start
    count := stop - start
    exact := c.time = time
    nextTime? := changes[stop]?.map Change.time }

end Block

namespace History

/-- The block in effect at a time: the one `around` the `hit?` of the bisection. There is none
before the first change. -/
def blockAt? (h : History) (time : Time) : Option Block :=
  match h.firstTime? with
  | none => none
  | some first =>
    if time < first then none
    else
      match Block.hit? h.changes time with
      | none => none
      | some index => h.changes[index]?.map (Block.around h.changes time index)

/-- The index of the change in effect at a time: the last one of the block that `blockAt?`
finds. -/
def indexAt? (h : History) (time : Time) : Option Nat := (h.blockAt? time).map Block.last

/-- The change **in effect** at a time, the one at `indexAt?`. -/
def inEffect? (h : History) (time : Time) : Option Change :=
  match h.indexAt? time with
  | none => none
  | some index => h.get? index

/-- Scans changes from the front and stops at the first that is later than `time`. The
answer is the one before it, or `found` if that is the very first. -/
def scanFrom (time : Time) (found : Option Change) : List Change → Option Change
  | [] => found
  | c :: cs => if time < c.time then found else scanFrom time (some c) cs

/-- The change in effect at a time, by a scan from the front. It is what `inEffect?` is compared
with. -/
def scan? (h : History) (time : Time) : Option Change := scanFrom time none h.toList

end History

end Waveform
