import Waveform.Interchange.Histories
import Waveform.Proofs.Json.Text

/-!
# Records are Kept by Their JSON Form

A type is **kept** by its JSON form (`Kept`) when nothing is lost on the way through a text:
the text is read as the JSON value that was written, that value is read as the record it was
written for, and a record that came from elsewhere, in whatever spelling, is written in a
form that is read as itself.

The reader takes more than the writer produces. A record may come as an array of its fields,
keys that are no fields are skipped, and the name of a case may map to null. So writing does
not undo reading, but it settles the spelling, and from then on nothing changes.

A real is not kept: one that is no finite number is written as null, which is not read as a
value. `Value.RealFree` are the values without one. For the types here, what is read back is
said by the lemmas `ofJson?_toJson`, and that the text says it all by the lemmas
`isExact_toJson`.
-/

namespace Waveform

/-- The type is **kept** by its JSON form, up to `Same` and for the values that are `Plain`. -/
structure Kept {α : Type} (write : α → Json) (read : Json → Except ReadError α)
    (Same : α → α → Prop) (Plain : α → Prop) : Prop where
  /-- The `Json.text` of what is written is read as what was written. -/
  parse_text : ∀ a, Plain a → Json.parse? (write a).text = some (write a)
  /-- What is written for a value is read as the `Same` value. -/
  read_write : ∀ a, Plain a → ∃ b, read (write a) = .ok b ∧ Same b a
  /-- A value that has been read, from whatever spelling, is read again from what is written
  for it. -/
  read_write_of_read : ∀ j a, read j = .ok a → Plain a → read (write a) = .ok a

/-- A type whose values are all read back is kept. -/
theorem Kept.of_ofJson?_toJson {α : Type} {write : α → Json} {ofJson? : Json → Option α}
    {Plain : α → Prop} (exact : ∀ a, Plain a → (write a).IsExact)
    (back : ∀ a, ofJson? (write a) = some a) :
    Kept write (fun j => ReadError.ofOption (ofJson? j)) Eq Plain where
  parse_text a ha := (exact a ha).parse?_text
  read_write a _ := ⟨a, by rw [back]; rfl, rfl⟩
  read_write_of_read j a _ _ := by rw [back]; rfl

/-! ### Cases -/

namespace Bit

theorem ofJson?_toJson (b : Bit) : ofJson? b.toJson = some b := by cases b <;> rfl

theorem isExact_toJson (b : Bit) : b.toJson.IsExact := .str _

end Bit

theorem UnknownBits.ofJson?_toJson (p : UnknownBits) : ofJson? p.toJson = some p := by
  cases p <;> rfl

theorem TimeUnit.ofJson?_toJson (u : TimeUnit) : ofJson? u.toJson = some u := by
  cases u <;> rfl

/-! ### Integers -/

namespace Json

theorem int64?_toInt (x : Int64) : int64? (.int x.toInt) = some x := by
  rw [int64?, if_pos ⟨x.minValue_le_toInt, x.toInt_le⟩, Int64.ofInt_toInt]

theorem int32?_toInt (x : Int32) : int32? (.int x.toInt) = some x := by
  rw [int32?, if_pos ⟨x.minValue_le_toInt, x.toInt_le⟩, Int32.ofInt_toInt]

theorem uint32?_toNat (x : UInt32) : uint32? (.int x.toNat) = some x := by
  have hlt := x.toNat_lt_size
  rw [uint32?, if_pos ⟨by omega, by omega⟩, Int.toNat_natCast, UInt32.ofNat_toNat]

/-- An integer that fits into 32 bits, signed or unsigned, is exact as `Json.IsExact` demands. -/
theorem isExact_int_of_lt {n : Int} (hmin : Int32.minValue.toInt ≤ n)
    (hmax : n < UInt32.size) : IsExact (.int n) := by
  have hbound : Int64.minValue.toInt ≤ Int32.minValue.toInt := by decide
  have hsize : UInt32.size < UInt64.size := by decide
  exact .int ⟨by omega, by omega⟩

theorem isExact_int64 (x : Int64) : IsExact (.int x.toInt) := by
  have hmax := x.toInt_le
  have hsize : Int64.maxValue.toInt < UInt64.size := by decide
  exact .int ⟨x.minValue_le_toInt, by omega⟩

theorem isExact_int32 (x : Int32) : IsExact (.int x.toInt) := by
  have hmax := x.toInt_le
  have hsize : Int32.maxValue.toInt < UInt32.size := by decide
  exact isExact_int_of_lt x.minValue_le_toInt (by omega)

theorem isExact_uint32 (x : UInt32) : IsExact (.int x.toNat) := by
  have hmin : Int32.minValue.toInt ≤ 0 := by decide
  have hmax := x.toNat_lt_size
  exact isExact_int_of_lt (by omega) (by omega)

/-- A list is read back when each of its elements is. -/
theorem elements?_map {α : Type} {write : α → Json} {read : Json → Option α} {xs : List α}
    (back : ∀ x ∈ xs, read (write x) = some x) : elements? read (xs.map write) = some xs := by
  induction xs with
  | nil => rfl
  | cons x xs ih =>
      have hrest := ih fun y hy => back y (List.mem_cons_of_mem x hy)
      rw [List.map_cons, elements?, back x List.mem_cons_self, hrest]

theorem isExact_arr_map {α : Type} {write : α → Json} {xs : List α}
    (exact : ∀ x ∈ xs, (write x).IsExact) : IsExact (.arr (xs.map write)) := by
  refine .arr fun j hj => ?_
  obtain ⟨x, hx, rfl⟩ := List.mem_map.mp hj
  exact exact x hx

end Json

namespace SignalId

theorem ofJson?_toJson (id : SignalId) : ofJson? id.toJson = some id := by
  obtain ⟨index, hlt⟩ := id
  have hindex : ((index + 1 : Nat) : Int).toNat - 1 = index := by omega
  have hpos : (1 : Int) ≤ (index + 1 : Nat) := by omega
  rw [toJson, number, ofJson?, if_pos hpos, hindex, ofIndex?, dif_pos hlt]

theorem isExact_toJson (id : SignalId) : id.toJson.IsExact := by
  have hmin : Int32.minValue.toInt ≤ 0 := by decide
  have hlt : id.number < UInt32.size := id.index_lt
  exact Json.isExact_int_of_lt (by omega) (by omega)

/-- The identity of a signal is `Kept`. -/
theorem kept : Kept toJson (fun j => ReadError.ofOption (ofJson? j)) Eq fun _ => True :=
  .of_ofJson?_toJson (fun id _ => id.isExact_toJson) ofJson?_toJson

end SignalId

/-! ### Values and changes -/

namespace Value

/-- The value is **no real**. -/
def RealFree (v : Value) : Prop := ∀ number, v ≠ .real number

theorem ofJson?_toJson (v : Value) : ofJson? v.toJson = some v := by
  cases v with
  | scalar bit => rw [toJson, ofJson?, Bit.ofJson?_toJson, Option.map_some]
  | vector bits =>
      rw [toJson, ofJson?, Json.elements?_map fun b _ => b.ofJson?_toJson, Option.map_some]
  | real number => rfl

theorem isExact_toJson {v : Value} (hv : v.RealFree) : v.toJson.IsExact := by
  cases v with
  | scalar bit => exact .obj (by simp) (by simp [bit.isExact_toJson])
  | vector bits =>
      have hbits := Json.isExact_arr_map fun b (_ : b ∈ bits) => b.isExact_toJson
      exact .obj (by simp) (by simp [hbits])
  | real number => exact absurd rfl (hv number)

/-- Values that are `RealFree` are kept. -/
theorem kept : Kept toJson (fun j => ReadError.ofOption (ofJson? j)) Eq RealFree :=
  .of_ofJson?_toJson (fun _ hv => isExact_toJson hv) ofJson?_toJson

end Value

namespace Change

/-- The change is to a value that is no real. -/
def RealFree (c : Change) : Prop := c.value.RealFree

/-- In whatever spelling `fields?` finds the fields, the change is read from them. -/
theorem ofJson?_of_fields? {j time value : Json} {c : Change}
    (hfields : j.fields? ["time", "value"] = some [time, value])
    (htime : time.int64? = some c.time) (hvalue : Value.ofJson? value = some c.value) :
    ofJson? j = some c := by
  simp only [ofJson?, hfields, htime, hvalue]

theorem ofJson?_toJson (c : Change) : ofJson? c.toJson = some c :=
  ofJson?_of_fields? rfl (Json.int64?_toInt c.time) c.value.ofJson?_toJson

theorem isExact_toJson {c : Change} (hc : c.RealFree) : c.toJson.IsExact :=
  .obj (by simp) (by simp [Json.isExact_int64, Value.isExact_toJson hc])

/-- Changes that are `RealFree` are kept. -/
theorem kept : Kept toJson (fun j => ReadError.ofOption (ofJson? j)) Eq RealFree :=
  .of_ofJson?_toJson (fun _ hc => isExact_toJson hc) ofJson?_toJson

end Change

/-! ### Settings, timescales and extents -/

namespace Settings

/-- In whatever spelling `fields?` finds the fields, the settings are read from them. -/
theorem ofJson?_of_fields? {j concurrent unknownBits : Json} {s : Settings}
    (hfields : j.fields? ["multi_thread", "unknown_bits"] = some [concurrent, unknownBits])
    (hconcurrent : concurrent.bool? = some s.concurrent)
    (hunknownBits : UnknownBits.ofJson? unknownBits = some s.unknownBits) :
    ofJson? j = some s := by
  simp only [ofJson?, hfields, hconcurrent, hunknownBits]

theorem ofJson?_toJson (s : Settings) : ofJson? s.toJson = some s :=
  ofJson?_of_fields? rfl rfl s.unknownBits.ofJson?_toJson

theorem isExact_toJson (s : Settings) : s.toJson.IsExact :=
  .obj (by simp) (by simp [Json.IsExact.bool, UnknownBits.toJson, Json.IsExact.str])

/-- Settings are `Kept`. -/
theorem kept : Kept toJson (fun j => ReadError.ofOption (ofJson? j)) Eq fun _ => True :=
  .of_ofJson?_toJson (fun s _ => s.isExact_toJson) ofJson?_toJson

end Settings

namespace Timescale

/-- In whatever spelling `fields?` finds the fields, the timescale is read from them. -/
theorem ofJson?_of_fields? {j factor unit : Json} {t : Timescale}
    (hfields : j.fields? ["factor", "unit"] = some [factor, unit])
    (hfactor : factor.uint32? = some t.factor) (hunit : TimeUnit.ofJson? unit = some t.unit) :
    ofJson? j = some t := by
  simp only [ofJson?, hfields, hfactor, hunit]

theorem ofJson?_toJson (t : Timescale) : ofJson? t.toJson = some t :=
  ofJson?_of_fields? rfl (Json.uint32?_toNat t.factor) t.unit.ofJson?_toJson

theorem isExact_toJson (t : Timescale) : t.toJson.IsExact :=
  .obj (by simp) (by simp [Json.isExact_uint32, TimeUnit.toJson, Json.IsExact.str])

/-- Timescales are `Kept`. -/
theorem kept : Kept toJson (fun j => ReadError.ofOption (ofJson? j)) Eq fun _ => True :=
  .of_ofJson?_toJson (fun t _ => t.isExact_toJson) ofJson?_toJson

end Timescale

namespace Extent

/-- In whatever spelling `fields?` finds the fields, the extent is read from them. -/
theorem ofJson?_of_fields? {j start stop : Json} {e : Extent}
    (hfields : j.fields? ["start", "end"] = some [start, stop])
    (hstart : start.int64? = some e.start) (hstop : stop.int64? = some e.stop) :
    ofJson? j = some e := by
  simp only [ofJson?, hfields, hstart, hstop]

theorem ofJson?_toJson (e : Extent) : ofJson? e.toJson = some e :=
  ofJson?_of_fields? rfl (Json.int64?_toInt e.start) (Json.int64?_toInt e.stop)

theorem isExact_toJson (e : Extent) : e.toJson.IsExact :=
  .obj (by simp) (by simp [Json.isExact_int64])

/-- Extents are `Kept`. -/
theorem kept : Kept toJson (fun j => ReadError.ofOption (ofJson? j)) Eq fun _ => True :=
  .of_ofJson?_toJson (fun e _ => e.isExact_toJson) ofJson?_toJson

end Extent

end Waveform
