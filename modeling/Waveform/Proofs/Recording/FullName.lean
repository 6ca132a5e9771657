import Waveform.Proofs.Json.Scanning
import Waveform.Proofs.Recorder.Naming

/-!
# Full Names Identify Vectors

A plain name may be any text, and so it may itself end in something that looks like a range.
Still the full name of a vector tells its plain name and its range apart, since it can be
taken to pieces from its end: no integer is written with a bracket or a colon, so what stands
behind the last opening bracket is the range (`Signal.fullName_eq_iff`).

A full name can be spelled like the plain name of another signal, however, and names belong to
the signal that was declared first. The main statement,
`Recorder.full_names_identify_vectors`, says for which vectors of a recording the lookup of
their full names finds another signal, and that there is no other reason for it.
-/

namespace Waveform

/-! ### Taking a text to pieces -/

/-- A list is cut in one way only at the **last place** of an element. -/
theorem eq_of_append_cons_eq {α : Type} {x : α} {front front' back back' : List α}
    (hback : x ∉ back) (hback' : x ∉ back')
    (heq : front ++ x :: back = front' ++ x :: back') : front = front' ∧ back = back' := by
  rcases List.append_eq_append_iff.mp heq with ⟨between, hfront, hrest⟩ | ⟨between, hfront, hrest⟩
  · cases between with
    | nil => simpa [hfront] using hrest
    | cons first between =>
        obtain ⟨-, rfl⟩ := List.cons_eq_cons.mp hrest
        exact absurd (List.mem_append_right _ List.mem_cons_self) hback
  · cases between with
    | nil => simpa [hfront, eq_comm] using hrest
    | cons first between =>
        obtain ⟨-, rfl⟩ := List.cons_eq_cons.mp hrest
        exact absurd (List.mem_append_right _ List.mem_cons_self) hback'

/-- No integer is written with a character that is neither a digit nor the minus sign. -/
theorem notMem_toString_int {c : Char} (hdigit : c.isDigit = false) (hminus : c ≠ '-') (n : Int) :
    c ∉ (toString n).toList := by
  intro hmem
  rcases Json.Token.mem_toString_int hmem with h | h
  · rw [hdigit] at h
    exact Bool.false_ne_true h
  · exact hminus h

/-- An index of a bit is **read back** from its written form. -/
theorem toString_index_inj {a b : Int32} (heq : toString a.toInt = toString b.toInt) : a = b := by
  have hback : ∀ n : Int32,
      Json.Number.parse? (toString n.toInt).toList = some (.int n.toInt) := by
    intro n
    have hmin := n.minValue_le_toInt
    have hmax := n.toInt_le
    have hword : Int64.minValue.toInt ≤ Int32.minValue.toInt := by decide
    have hsize : Int32.maxValue.toInt < UInt64.size := by decide
    exact Json.Number.parse?_toString ⟨by omega, by omega⟩
  have hparsed := congrArg (fun text => Json.Number.parse? text.toList) heq
  simp only [hback, Option.some.injEq, Json.int.injEq] at hparsed
  exact Int32.toInt_inj.mp hparsed

namespace Signal

variable {s s' : Signal}

/-- A range is written between brackets, with a colon between its ends. -/
theorem toList_rangeText (s : Signal) :
    s.rangeText.toList = '[' :: ((toString s.msi.toInt).toList ++
      ':' :: ((toString s.lsi.toInt).toList ++ [']'])) := by
  simp [rangeText, toString]

/-- The written form tells the **range**. -/
theorem rangeText_inj (heq : s.rangeText = s'.rangeText) : s.msi = s'.msi ∧ s.lsi = s'.lsi := by
  have hlist := congrArg String.toList heq
  rw [toList_rangeText, toList_rangeText, List.cons_eq_cons] at hlist
  have hcolon : ∀ n : Int, ':' ∉ (toString n).toList ++ [']'] := fun n hmem =>
    (List.mem_append.mp hmem).elim (notMem_toString_int (by decide) (by decide) n) (by decide)
  obtain ⟨hmsi, hlsi⟩ := eq_of_append_cons_eq (hcolon _) (hcolon _) hlist.2
  exact ⟨toString_index_inj (String.toList_inj.mp hmsi),
    toString_index_inj (String.toList_inj.mp (List.append_cancel_right hlsi))⟩

/-- **A name with a range behind it** (`rangeText`) tells the name and the range. -/
theorem append_rangeText_inj (heq : s.name ++ s.rangeText = s'.name ++ s'.rangeText) :
    s.name = s'.name ∧ s.rangeText = s'.rangeText := by
  have hlist := congrArg String.toList heq
  rw [String.toList_append, String.toList_append, toList_rangeText, toList_rangeText] at hlist
  have hinteger : ∀ n : Int, '[' ∉ (toString n).toList :=
    notMem_toString_int (by decide) (by decide)
  have hbracket : ∀ m n : Int,
      '[' ∉ (toString m).toList ++ ':' :: ((toString n).toList ++ [']']) := by
    intro m n
    simp only [List.mem_append, List.mem_cons, hinteger, List.not_mem_nil, false_or, or_false]
    decide
  obtain ⟨hname, hrange⟩ := eq_of_append_cons_eq (hbracket _ _) (hbracket _ _) hlist
  refine ⟨String.toList_inj.mp hname, String.toList_inj.mp ?_⟩
  rw [toList_rangeText, toList_rangeText, hrange]

/-! ### The names of a vector -/

theorem fullName_of_vector (hvector : s.isScalar = false) : s.fullName = s.name ++ s.rangeText :=
  if_neg (by simp [hvector])

theorem fullName_of_scalar (hscalar : s.isScalar = true) : s.fullName = s.name := if_pos hscalar

/-- Signals with the same range are both scalars, or both vectors. -/
theorem isScalar_eq_of_range (hmsi : s'.msi = s.msi) (hlsi : s'.lsi = s.lsi) :
    s'.isScalar = s.isScalar := by
  rw [isScalar, isScalar, width, width, hmsi, hlsi]

/-- **The full names of two vectors** (`fullName`) are the same when their names and their ranges
are, and only then. -/
theorem fullName_eq_iff (hvector : s.isScalar = false) (hvector' : s'.isScalar = false) :
    s.fullName = s'.fullName ↔ s.name = s'.name ∧ s.msi = s'.msi ∧ s.lsi = s'.lsi := by
  rw [fullName_of_vector hvector, fullName_of_vector hvector']
  constructor
  · intro heq
    obtain ⟨hname, hrange⟩ := append_rangeText_inj heq
    exact ⟨hname, rangeText_inj hrange⟩
  · rintro ⟨hname, hmsi, hlsi⟩
    rw [hname, rangeText, rangeText, hmsi, hlsi]

/-- The full name of a vector is never its plain name. -/
theorem fullName_ne_name (hvector : s.isScalar = false) : s.fullName ≠ s.name := by
  rw [fullName_of_vector hvector]
  exact s.append_rangeText_ne

/-- The signals that have the `fullName` of a vector are the vectors of the same name and range,
and the signals whose plain name is **literally that text**. -/
theorem hasName_fullName_iff (hvector : s.isScalar = false) :
    s'.HasName s.fullName ↔
      s'.name = s.name ∧ s'.msi = s.msi ∧ s'.lsi = s.lsi ∨ s'.name = s.fullName := by
  rw [hasName_iff, eq_comm (a := s.fullName), eq_comm (a := s.fullName)]
  constructor
  · rintro (hfull | hplain)
    · cases hscalar : s'.isScalar with
      | false => exact Or.inl ((fullName_eq_iff hscalar hvector).mp hfull)
      | true => exact Or.inr ((fullName_of_scalar hscalar).symm.trans hfull)
    · exact Or.inr hplain
  · rintro (⟨hname, hmsi, hlsi⟩ | hplain)
    · have hvector' : s'.isScalar = false := (isScalar_eq_of_range hmsi hlsi).trans hvector
      exact Or.inl ((fullName_eq_iff hvector' hvector).mpr ⟨hname, hmsi, hlsi⟩)
    · exact Or.inr hplain

end Signal

namespace Recorder

variable {r : Recorder} {id : SignalId} {s : Signal}

/-- A name of a signal is found for **another one** exactly when an earlier signal has it. -/
theorem owner?_ne_iff (h : r.FirstWins) (hs : r.signals[id.index]? = some s) {name : String}
    (hname : s.HasName name) :
    r.names.owner? name ≠ some id ↔
      ∃ i < id.index, ∃ s', r.signals[i]? = some s' ∧ s'.HasName name := by
  rw [ne_eq, owner?_eq_some_iff h]
  constructor
  · intro hother
    by_contra hnone
    refine hother ⟨⟨s, hs, hname⟩, fun i hi s' hs' hname' => ?_⟩
    exact hnone ⟨i, hi, s', hs', hname'⟩
  · rintro ⟨i, hi, s', hs', hname'⟩ ⟨-, hbefore⟩
    exact hbefore i hi s' hs' hname'

/-- **Full names identify vectors.** Two vectors have the same `Signal.fullName` exactly when
they have the same plain name and the same range, and no vector's full name is its plain name.
Take the recording of any run and a vector in it. What `lookup?` finds under its full name is
another signal exactly when an earlier signal is in the way: one of the same name and range, or
one whose plain name is literally that text. -/
theorem full_names_identify_vectors :
    (∀ s s' : Signal, s.isScalar = false → s'.isScalar = false →
      (s.fullName = s'.fullName ↔ s.name = s'.name ∧ s.msi = s'.msi ∧ s.lsi = s'.lsi)) ∧
    (∀ s : Signal, s.isScalar = false → s.fullName ≠ s.name) ∧
    ∀ (settings : Settings) (calls : List Call) (id : SignalId) (s : Signal),
      let recording := ((new settings).run calls).1.finish
      recording.signal? id = some s → s.isScalar = false →
        (recording.lookup? s.fullName ≠ some id ↔
          ∃ i < id.index, ∃ s', recording.signals[i]? = some s' ∧
            (s'.name = s.name ∧ s'.msi = s.msi ∧ s'.lsi = s.lsi ∨ s'.name = s.fullName)) := by
  refine ⟨fun _ _ => Signal.fullName_eq_iff, fun _ => Signal.fullName_ne_name, ?_⟩
  intro settings calls id s recording hs hvector
  have hfirst : ((new settings).run calls).1.FirstWins :=
    firstWins_run (firstWins_new settings) calls
  have hother := owner?_ne_iff hfirst hs (Signal.hasName_iff.mpr (Or.inl rfl))
  simp only [Signal.hasName_fullName_iff hvector] at hother
  exact hother

/-- Two vectors whose names look alike, and a vector behind a scalar that is called by its full
name. -/
theorem full_names_identify_vectors_bracketed :
    let bus : Signal := { name := "a", msi := 1, lsi := 0 }
    let nested : Signal := { name := "a[1:0]", msi := 1, lsi := 0 }
    let calls : List Call := [.declare "a[1:0]" 0 0, .declare "a" 1 0]
    let recording := ((new {}).run calls).1.finish
    bus.fullName ≠ nested.fullName ∧ bus.fullName ≠ bus.name ∧
      recording.signal? ⟨1, by decide⟩ = some bus ∧
      recording.lookup? bus.fullName ≠ some ⟨1, by decide⟩ := by
  intro bus nested calls recording
  obtain ⟨hinj, hne, hlookup⟩ := full_names_identify_vectors
  have hvector : bus.isScalar = false := by decide
  have hs : recording.signal? ⟨1, by decide⟩ = some bus := rfl
  refine ⟨fun heq => ?_, hne bus hvector, hs, ?_⟩
  · have hnames := ((hinj bus nested hvector (by decide)).mp heq).1
    exact absurd hnames (by decide)
  · refine (hlookup {} calls ⟨1, by decide⟩ bus hs hvector).mpr ⟨0, by decide, ?_⟩
    exact ⟨{ name := "a[1:0]", msi := 0, lsi := 0 }, rfl, Or.inr (by decide)⟩

end Recorder

end Waveform
