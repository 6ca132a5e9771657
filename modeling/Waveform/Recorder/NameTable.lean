import Waveform.Signal

/-!
# Names in Use

Signals are found by name, and a name belongs to the signal that was the first to use it.
The name table keeps each name once, together with its owner. To register a name that is
already in use changes nothing and tells who owns it.
-/

namespace Waveform

/-- The names in use, each with the `SignalId` that owns it. -/
structure NameTable where
  entries : List (String × SignalId)
  /-- Every name has one `owner?`. -/
  nodup : (entries.map Prod.fst).Nodup

namespace NameTable

/-- No name is in use. -/
def empty : NameTable := ⟨[], List.nodup_nil⟩

instance : Inhabited NameTable := ⟨empty⟩

/-- The owner of a name. -/
def owner? (t : NameTable) (name : String) : Option SignalId := t.entries.lookup name

/-- The names in use. -/
def names (t : NameTable) : List String := t.entries.map Prod.fst

theorem notMem_of_owner? {t : NameTable} {name : String} (h : t.owner? name = none) :
    name ∉ t.entries.map Prod.fst := by
  intro hmem
  obtain ⟨entry, he, rfl⟩ := List.mem_map.mp hmem
  have := List.lookup_eq_none_iff.mp h entry he
  simp at this

/-- Gives a name to a signal, unless it has an `owner?` already. The second component is the
owner that stood in the way. -/
def register (t : NameTable) (id : SignalId) (name : String) : NameTable × Option SignalId :=
  match h : t.owner? name with
  | some owner => (t, some owner)
  | none =>
    (⟨(name, id) :: t.entries, List.nodup_cons.mpr ⟨notMem_of_owner? h, t.nodup⟩⟩, none)

/-- The name that is registered has an owner from then on: the one it had before, or else
the signal. Every other name keeps what it had. -/
theorem owner?_register (t : NameTable) (id : SignalId) (name other : String) :
    (t.register id name).1.owner? other =
      if other = name then some ((t.owner? name).getD id) else t.owner? other := by
  unfold register
  split
  · rename_i owner howner
    split
    · rename_i heq
      rw [heq, howner, Option.getD_some]
    · rfl
  · rename_i hnone
    by_cases heq : other = name
    · subst heq
      rw [if_pos rfl]
      simp only [hnone, Option.getD_none]
      simp [owner?]
    · simp [heq, owner?, List.lookup_cons, beq_eq_false_iff_ne.mpr heq]

/-- The second component of `register` is the `owner?` of before. -/
theorem register_snd (t : NameTable) (id : SignalId) (name : String) :
    (t.register id name).2 = t.owner? name := by
  unfold register
  split
  · rename_i howner
    exact howner.symm
  · rename_i hnone
    exact hnone.symm

/-- Does `register` for several names of a signal, one after the other. The second component
lists the names that were in use, and their owners. -/
def registerAll (t : NameTable) (id : SignalId) :
    List String → NameTable × List (String × SignalId)
  | [] => (t, [])
  | name :: names =>
    let (t', owner?) := t.register id name
    let (last, taken) := t'.registerAll id names
    match owner? with
    | some owner => (last, (name, owner) :: taken)
    | none => (last, taken)

/-- The size of an entry without the name's text. -/
def entrySize : Nat := 32

/-- The estimated size of the entries in bytes: `entrySize` and the bytes of the name for
each. -/
def footprint (t : NameTable) : Nat :=
  t.names.foldr (fun name total => entrySize + name.utf8ByteSize + total) 0

end NameTable

end Waveform
