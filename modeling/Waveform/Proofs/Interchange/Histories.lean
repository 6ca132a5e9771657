import Waveform.Proofs.History.Building
import Waveform.Proofs.Interchange.Records

/-!
# Histories are Kept, and Stay in Order

A history is read through `History.ofList`, and that is the only way into the type from
outside. Which values of JSON are read as a history is said without any reading of
histories: `History.listed?` are the changes that a value lists, in whatever order. A value
is read as a history exactly when it lists changes in time order
(`History.exists_ofJson_iff`), and the history then has those changes. A value that lists
them in another order is refused for that reason (`History.ofJson_of_not_inTimeOrder`).

A signal holds its history at one place, `Signal.historyPart?`, and no signal is read unless
that place is read as a history (`Signal.ofJson_eq_ok`).

`Interchange.values_kept_and_in_order` is the summary for all types.
-/

namespace Waveform

/-! ### Histories -/

namespace History

/-- The changes that a value **lists**, in whatever order. -/
def listed? : Json → Option (List Change)
  | .arr js => Json.elements? Change.ofJson? js
  | _ => none

/-- The same changes. How many slots there are for more does not count. -/
def SameChanges (a b : History) : Prop := a.toList = b.toList

/-- No change is to a real. -/
def RealFree (h : History) : Prop := ∀ c ∈ h.toList, c.RealFree

theorem listed?_toJson (h : History) : listed? h.toJson = some h.toList :=
  Json.elements?_map fun c _ => c.ofJson?_toJson

/-- `ofJson` goes through the list of changes. -/
theorem ofJson_of_listed? {j : Json} {changes : List Change} (hj : listed? j = some changes) :
    ofJson j = (ofList changes).mapError .outOfOrder := by
  unfold listed? at hj
  split at hj
  · rename_i js
    simp only [ofJson, hj]
    cases ofList changes <;> rfl
  · contradiction

/-- A value that lists no changes is malformed. -/
theorem ofJson_of_listed?_eq_none {j : Json} (hj : listed? j = none) :
    ofJson j = .error .malformed := by
  unfold listed? at hj
  split at hj
  · rw [ofJson, hj]
  · rename_i hne
    unfold ofJson
    split
    · exact absurd rfl (hne _)
    · rfl

/-- A value is **read as a history** that has the changes of `listed?`, and one slot for each. -/
theorem ofJson_eq_ok_iff {j : Json} {h : History} :
    ofJson j = .ok h ↔ listed? j = some h.toList ∧ h.reserved = h.size := by
  cases hj : listed? j with
  | none => simp [ofJson_of_listed?_eq_none hj]
  | some changes =>
      have hbuilt : (ofList changes).mapError ReadError.outOfOrder = .ok h ↔
          ofList changes = .ok h := by
        cases ofList changes <;> simp [Except.mapError]
      rw [ofJson_of_listed? hj, hbuilt, ofList_eq_ok_iff, Option.some.injEq, eq_comm,
        ← length_toList]
      constructor
      · rintro ⟨rfl, hreserved⟩
        exact ⟨rfl, hreserved⟩
      · rintro ⟨rfl, hreserved⟩
        exact ⟨rfl, hreserved⟩

/-- A value is read as a history exactly when `listed?` finds changes **in time order**. -/
theorem exists_ofJson_iff {j : Json} :
    (∃ h, ofJson j = .ok h) ↔ ∃ changes, listed? j = some changes ∧ InTimeOrder changes := by
  constructor
  · rintro ⟨h, hok⟩
    exact ⟨h.toList, (ofJson_eq_ok_iff.mp hok).1, h.inTimeOrder_toList⟩
  · rintro ⟨changes, hj, order⟩
    obtain ⟨h, hok⟩ := exists_ofList_iff.mpr order
    exact ⟨h, by rw [ofJson_of_listed? hj, hok]; rfl⟩

/-- A value that lists changes in any other order is **refused** as `outOfOrder`, and that is the
reason that is given. -/
theorem ofJson_of_not_inTimeOrder {j : Json} {changes : List Change}
    (hj : listed? j = some changes) (hnot : ¬ InTimeOrder changes) :
    ∃ why, ofJson j = .error (.outOfOrder why) := by
  cases hbuilt : ofList changes with
  | error why => exact ⟨why, by rw [ofJson_of_listed? hj, hbuilt]; rfl⟩
  | ok h => exact absurd (exists_ofList_iff.mp ⟨h, hbuilt⟩) hnot

theorem isExact_toJson {h : History} (hfree : h.RealFree) : h.toJson.IsExact :=
  Json.isExact_arr_map fun c hc => Change.isExact_toJson (hfree c hc)

/-- What is written for a history is read as one with the same changes. -/
theorem exists_ofJson_toJson (h : History) :
    ∃ h', ofJson h.toJson = .ok h' ∧ h'.SameChanges h := by
  obtain ⟨h', hok, hsame⟩ := exists_ofList_toList h
  exact ⟨h', by rw [ofJson_of_listed? h.listed?_toJson, hok]; rfl, hsame⟩

/-- A history that `ofJson` has read is read again from what is written for it. -/
theorem ofJson_toJson_of_ofJson {j : Json} {h : History} (hok : ofJson j = .ok h) :
    ofJson h.toJson = .ok h :=
  ofJson_eq_ok_iff.mpr ⟨h.listed?_toJson, (ofJson_eq_ok_iff.mp hok).2⟩

/-- Histories that are `RealFree` are kept. -/
theorem kept : Kept toJson ofJson SameChanges RealFree where
  parse_text _ hfree := (isExact_toJson hfree).parse?_text
  read_write h _ := h.exists_ofJson_toJson
  read_write_of_read _ _ hok _ := ofJson_toJson_of_ofJson hok

end History

/-! ### Signals -/

namespace Signal

/-- The place of the history within the written form of a signal. -/
def historyPart? : Json → Option Json
  | .obj members => members.lookup "history"
  | .arr elements => elements[3]?
  | _ => none

/-- The same signal. How many slots its history has for more changes does not count. -/
def SameRecord (a b : Signal) : Prop :=
  a.name = b.name ∧ a.msi = b.msi ∧ a.lsi = b.lsi ∧ a.history.SameChanges b.history

/-- No change of the signal is to a real. -/
def RealFree (s : Signal) : Prop := s.history.RealFree

theorem ofMembers_eq_ok {members : List (String × Json)} {s : Signal}
    (hok : ofMembers members = .ok s) :
    ∃ part, members.lookup "history" = some part ∧ History.ofJson part = .ok s.history := by
  unfold ofMembers at hok
  split at hok
  · contradiction
  · rename_i part hpart
    refine ⟨part, hpart, ?_⟩
    split at hok
    · contradiction
    · rename_i h hh
      split at hok
      · rename_i name msi lsi hfields
        cases hheader : header? name msi lsi with
        | none => simp [hheader, ReadError.ofOption] at hok
        | some header =>
            simp only [hheader, Option.map_some, ReadError.ofOption, Except.ok.injEq] at hok
            rw [hh, ← hok]
      · contradiction

theorem ofElements_eq_ok {elements : List Json} {s : Signal} (hok : ofElements elements = .ok s) :
    ∃ part, elements[3]? = some part ∧ History.ofJson part = .ok s.history := by
  unfold ofElements at hok
  split at hok
  · rename_i name msi lsi part rest
    refine ⟨part, rfl, ?_⟩
    split at hok
    · contradiction
    · split at hok
      · contradiction
      · rename_i h hh
        split at hok
        · rw [hh, ← Except.ok.inj hok]
        · contradiction
  · contradiction

/-- **No signal is read** unless its `historyPart?` is read as a history. -/
theorem ofJson_eq_ok {j : Json} {s : Signal} (hok : ofJson j = .ok s) :
    ∃ part, historyPart? j = some part ∧ History.ofJson part = .ok s.history := by
  cases j with
  | obj members => exact ofMembers_eq_ok hok
  | arr elements => exact ofElements_eq_ok hok
  | _ => simp [ofJson] at hok

/-- A signal whose history lists changes out of order is refused. -/
theorem ofJson_of_not_inTimeOrder {j part : Json} {changes : List Change}
    (hj : historyPart? j = some part) (hpart : History.listed? part = some changes)
    (hnot : ¬ InTimeOrder changes) : ∃ e, ofJson j = .error e := by
  cases hread : ofJson j with
  | error e => exact ⟨e, rfl⟩
  | ok s =>
      obtain ⟨part', hj', hok⟩ := ofJson_eq_ok hread
      obtain rfl : part = part' := Option.some.inj (hj.symm.trans hj')
      obtain ⟨changes', hpart', order⟩ := History.exists_ofJson_iff.mp ⟨_, hok⟩
      obtain rfl : changes = changes' := Option.some.inj (hpart.symm.trans hpart')
      exact absurd order hnot

/-- What is written for a signal is read as the signal, with the history that is read. -/
theorem ofJson_toJson {s : Signal} {h : History}
    (hok : History.ofJson s.history.toJson = .ok h) :
    ofJson s.toJson = .ok { s with history := h } := by
  have hheader : header? (.str s.name) (.int s.msi.toInt) (.int s.lsi.toInt) =
      some (s.name, s.msi, s.lsi) := by
    simp only [header?, Json.string?, Json.int32?_toInt]
  have hhistory : s.toJson.member? "history" = some s.history.toJson := rfl
  have hfields : s.toJson.fields? ["name", "msi", "lsi"] =
      some [.str s.name, .int s.msi.toInt, .int s.lsi.toInt] := rfl
  simp only [toJson, Json.member?, Json.fields?] at hhistory hfields
  simp only [toJson, ofJson, ofMembers, hhistory, hok, hfields, hheader, Option.map_some,
    ReadError.ofOption]

theorem isExact_toJson {s : Signal} (hfree : s.RealFree) : s.toJson.IsExact :=
  .obj (by simp) (by simp [Json.IsExact.str, Json.isExact_int32, History.isExact_toJson hfree])

/-- Signals that are `RealFree` are kept. -/
theorem kept : Kept toJson ofJson SameRecord RealFree where
  parse_text _ hfree := (isExact_toJson hfree).parse?_text
  read_write s _ := by
    obtain ⟨h, hok, hsame⟩ := s.history.exists_ofJson_toJson
    exact ⟨{ s with history := h }, ofJson_toJson hok, rfl, rfl, rfl, hsame⟩
  read_write_of_read j s hok _ := by
    obtain ⟨part, -, hpart⟩ := ofJson_eq_ok hok
    exact ofJson_toJson (History.ofJson_toJson_of_ofJson hpart)

end Signal

/-! ### All types -/

namespace Interchange

/-- **Every type that is exchanged is kept by its JSON form, and histories stay in order.** In
the sense of `Kept`, values, changes, histories and signals are kept as long as they are
`RealFree`, and identities of signals, settings, timescales and extents always. Whatever JSON
value a history or a signal has been read from, the changes are `InTimeOrder`, and they are those
that the value lists. A value that lists changes in another order is refused, on its own as well
as within a signal. -/
theorem values_kept_and_in_order :
    (Kept Value.toJson (fun j => ReadError.ofOption (Value.ofJson? j)) Eq Value.RealFree ∧
      Kept Change.toJson (fun j => ReadError.ofOption (Change.ofJson? j)) Eq Change.RealFree ∧
      Kept History.toJson History.ofJson History.SameChanges History.RealFree ∧
      Kept Signal.toJson Signal.ofJson Signal.SameRecord Signal.RealFree ∧
      Kept SignalId.toJson (fun j => ReadError.ofOption (SignalId.ofJson? j)) Eq
        (fun _ => True) ∧
      Kept Settings.toJson (fun j => ReadError.ofOption (Settings.ofJson? j)) Eq
        (fun _ => True) ∧
      Kept Timescale.toJson (fun j => ReadError.ofOption (Timescale.ofJson? j)) Eq
        (fun _ => True) ∧
      Kept Extent.toJson (fun j => ReadError.ofOption (Extent.ofJson? j)) Eq fun _ => True) ∧
    (∀ j h, History.ofJson j = .ok h →
      InTimeOrder h.toList ∧ History.listed? j = some h.toList) ∧
    (∀ j s, Signal.ofJson j = .ok s →
      InTimeOrder s.history.toList ∧
        (Signal.historyPart? j).bind History.listed? = some s.history.toList) ∧
    (∀ j changes, History.listed? j = some changes → ¬ InTimeOrder changes →
      ∃ why, History.ofJson j = .error (.outOfOrder why)) ∧
    ∀ j changes, (Signal.historyPart? j).bind History.listed? = some changes →
      ¬ InTimeOrder changes → ∃ e, Signal.ofJson j = .error e := by
  refine ⟨⟨Value.kept, Change.kept, History.kept, Signal.kept, SignalId.kept, Settings.kept,
    Timescale.kept, Extent.kept⟩, fun j h hok => ?_, fun j s hok => ?_,
    fun j changes hj hnot => History.ofJson_of_not_inTimeOrder hj hnot,
    fun j changes hj hnot => ?_⟩
  · exact ⟨h.inTimeOrder_toList, (History.ofJson_eq_ok_iff.mp hok).1⟩
  · obtain ⟨part, hpart, hhistory⟩ := Signal.ofJson_eq_ok hok
    rw [hpart]
    exact ⟨s.history.inTimeOrder_toList, (History.ofJson_eq_ok_iff.mp hhistory).1⟩
  · obtain ⟨part, hpart, hlisted⟩ := Option.bind_eq_some_iff.mp hj
    exact Signal.ofJson_of_not_inTimeOrder hpart hlisted hnot

/-- A clock that is spelled as an array, with its first change as an object in another order
and with a key too many, and with a bit as an object. The two changes of the clock are
refused the other way around. -/
theorem values_kept_and_in_order_clock :
    let low : Json := .obj [("value", .obj [("Scalar", .str "Zero")]), ("line", .null),
      ("time", .int (-2))]
    let high : Json := .arr [.int 5, .obj [("Scalar", .obj [("One", .null)])]]
    let clock (changes : List Json) : Json := .arr [.str "clk", .int 0, .int 0, .arr changes]
    ∃ s, Signal.ofJson (clock [low, high]) = .ok s ∧
      s.history.toList = [⟨-2, .scalar .zero⟩, ⟨5, .scalar .one⟩] ∧
      InTimeOrder s.history.toList ∧ Json.parse? s.toJson.text = some s.toJson ∧
      Signal.ofJson s.toJson = .ok s ∧
      (∃ why, History.ofJson (.arr [high, low]) = .error (.outOfOrder why)) ∧
      ∃ e, Signal.ofJson (clock [high, low]) = .error e := by
  intro low high clock
  obtain ⟨⟨-, -, -, hsignals, -⟩, -, horder, hhistory, hsignal⟩ := values_kept_and_in_order
  let s : Signal := ⟨"clk", 0, 0,
    ⟨#[⟨-2, .scalar .zero⟩, ⟨5, .scalar .one⟩], 2, by decide, by decide⟩⟩
  have hok : Signal.ofJson (clock [low, high]) = .ok s := rfl
  have hfree : s.RealFree := by
    intro c hc number
    obtain rfl | rfl : c = ⟨-2, .scalar .zero⟩ ∨ c = ⟨5, .scalar .one⟩ := by
      simpa [s, History.toList] using hc
    all_goals simp
  exact ⟨s, hok, rfl, (horder _ s hok).1, hsignals.parse_text s hfree,
    hsignals.read_write_of_read _ s hok hfree, hhistory _ [⟨5, .scalar .one⟩, ⟨-2, .scalar .zero⟩]
      rfl (by decide), hsignal _ [⟨5, .scalar .one⟩, ⟨-2, .scalar .zero⟩] rfl (by decide)⟩

end Interchange

end Waveform
