import Waveform.Proofs.Recorder.Run

/-!
# The Outline of a Recorder

Names, ranges and identities of signals are settled when the signals are declared, and no
change has a say in them. The **outline** of a recorder is what remains of it when changes
and timescale are forgotten: the signals as they were declared, and the table of names.

A declaration does the same to a recorder as to its outline
(`Recorder.declare_outline`), and no other call can be seen in the outline at all
(`Recorder.outline_perform`). So the outline that a run ends with, and the answers to its
declarations, come from the declarations alone: `Recorder.outline_run` and
`Recorder.exchanges_declarations`.

Besides, no run declares more signals than there are identities for
(`Recorder.size_run_lt`).
-/

namespace Waveform

namespace Signal

/-- The signal as it was declared, without its changes. -/
def blank (s : Signal) : Signal := { s with history := .empty }

end Signal

namespace Recorder

variable {r : Recorder} {id : SignalId} {s : Signal} {c : Change}

/-! ### What declarations settle -/

/-- The **outline** of a recorder: its signals made `blank`, and their names. -/
def outline (r : Recorder) : Recorder :=
  { r with signals := r.signals.map Signal.blank, timescale? := none }

theorem size_outline (r : Recorder) : r.outline.signals.size = r.signals.size :=
  Array.size_map

theorem getElem?_outline (r : Recorder) (index : Nat) :
    r.outline.signals[index]? = r.signals[index]?.map Signal.blank :=
  Array.getElem?_map

/-- The call declares a signal. -/
def Call.isDeclaration : Call → Bool
  | .declare _ _ _ => true
  | _ => false

theorem exists_of_isDeclaration {call : Call} (hcall : call.isDeclaration = true) :
    ∃ name msi lsi, call = .declare name msi lsi := by
  cases call with
  | declare name msi lsi => exact ⟨name, msi, lsi, rfl⟩
  | record id c => simp [Call.isDeclaration] at hcall
  | setTimescale timescale => simp [Call.isDeclaration] at hcall

/-- The **declarations** among some calls. -/
def declarations (calls : List Call) : List Call := calls.filter Call.isDeclaration

theorem declarations_cons (call : Call) (calls : List Call) :
    declarations (call :: calls) =
      if call.isDeclaration then call :: declarations calls else declarations calls :=
  List.filter_cons

/-- `declare` does the same to a recorder and to its outline, with the same outcome. -/
theorem declare_outline (r : Recorder) (name : String) (msi lsi : Int32) :
    r.outline.declare name msi lsi =
      ((r.declare name msi lsi).1.outline, (r.declare name msi lsi).2) := by
  rw [declare, declare, size_outline]
  cases SignalId.ofIndex? r.signals.size with
  | none => rfl
  | some id => simp [outline, Signal.blank]

theorem blank_extend (c : Change) (s : Signal) : (extend c s).blank = s.blank := by
  obtain ⟨name, msi, lsi, history⟩ := s
  rw [extend]
  split
  · rfl
  · rfl

/-- A change cannot be seen in the outline. -/
theorem outline_record (r : Recorder) (id : SignalId) (c : Change) :
    (r.record id c).1.outline = r.outline := by
  rcases record_cases r id c with ⟨why, -, hr⟩ | ⟨s, -, -, hr⟩
  · rw [hr]
  · have hsignals : (r.signals.modify id.index (extend c)).map Signal.blank =
        r.signals.map Signal.blank := by
      refine Array.ext_getElem? fun i => ?_
      rw [Array.getElem?_map, Array.getElem?_map, Array.getElem?_modify]
      split
      · rw [Option.map_map]
        exact congrFun (congrArg Option.map (funext (blank_extend c))) _
      · rfl
    rw [hr, outline, outline, hsignals]

/-- The outline takes part in declarations only: any other call leaves it as it is. -/
theorem outline_perform (r : Recorder) (call : Call) :
    (r.perform call).1.outline =
      if call.isDeclaration then (r.outline.perform call).1 else r.outline := by
  cases call with
  | declare name msi lsi => exact (congrArg Prod.fst (declare_outline r name msi lsi)).symm
  | record id c => exact outline_record r id c
  | setTimescale timescale => rfl

/-- **The outline at the end of a run** is that of its `declarations` alone. -/
theorem outline_run (r : Recorder) (calls : List Call) :
    (r.run calls).1.outline = (r.outline.run (declarations calls)).1 := by
  induction calls generalizing r with
  | nil => rfl
  | cons call calls ih =>
      rw [run_cons, ih, outline_perform, declarations_cons]
      split
      · rfl
      · rfl

/-- **The answers to the declarations** of a run are those that they get without the rest of
the run. -/
theorem exchanges_declarations (r : Recorder) (calls : List Call) :
    (r.exchanges calls).filter (fun exchange => exchange.1.isDeclaration) =
      r.outline.exchanges (declarations calls) := by
  induction calls generalizing r with
  | nil => rfl
  | cons call calls ih =>
      rw [exchanges_cons, List.filter_cons, declarations_cons, ih, outline_perform]
      cases call with
      | declare name msi lsi =>
          have houtcome := congrArg Prod.snd (declare_outline r name msi lsi)
          simp only [Call.isDeclaration, if_true, exchanges_cons]
          rw [perform, perform, houtcome]
      | record id c => rfl
      | setTimescale timescale => rfl

/-! ### How many signals there can be -/

/-- `declare` adds a signal as long as there is an identity left. -/
theorem size_declare (r : Recorder) (name : String) (msi lsi : Int32) :
    (r.declare name msi lsi).1.signals.size =
      if r.signals.size + 1 < UInt32.size then r.signals.size + 1 else r.signals.size := by
  by_cases hlt : r.signals.size + 1 < UInt32.size
  · simp [declare, SignalId.ofIndex?, hlt]
  · simp [declare, SignalId.ofIndex?, hlt]

/-- A call other than a declaration adds no signal. -/
theorem size_perform {call : Call} (hcall : call.isDeclaration = false) :
    (r.perform call).1.signals.size = r.signals.size := by
  rw [← size_outline, outline_perform, hcall, if_neg Bool.false_ne_true, size_outline]

/-- There are never more signals than identities. -/
theorem size_run_lt (hsize : r.signals.size < UInt32.size) (calls : List Call) :
    (r.run calls).1.signals.size < UInt32.size := by
  induction calls generalizing r with
  | nil => exact hsize
  | cons call calls ih =>
      have hstep : (r.perform call).1.signals.size < UInt32.size := by
        cases hcall : call.isDeclaration with
        | false => rwa [size_perform hcall]
        | true =>
            obtain ⟨name, msi, lsi, rfl⟩ := exists_of_isDeclaration hcall
            rw [perform, size_declare]
            split
            · assumption
            · exact hsize
      exact ih hstep

theorem size_run_new_lt (settings : Settings) (calls : List Call) :
    ((new settings).run calls).1.signals.size < UInt32.size :=
  size_run_lt (by simp [new]) calls

end Recorder

end Waveform
