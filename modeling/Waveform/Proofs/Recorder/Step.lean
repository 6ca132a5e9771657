import Waveform.Recorder

/-!
# What one Call Does

A recorder answers its calls one at a time. This module says once what a single call can
do, and every law of whole runs rests on that:

* `Recorder.declare_cases`: a declaration is refused for want of identities, or it adds one
  signal without changes at the end;
* `Recorder.record_cases`: a change is rejected and nothing happens, or it is added to the
  history of its own signal;
* `Recorder.signal_perform`, `Recorder.noSignal_perform`: seen from one signal, a call
  declares it, adds the change that was accepted for it, or leaves it alone;
* `Recorder.forall_signals_perform`: what holds of all signals is kept by a call when it holds
  of new signals and changes with which nothing is wrong do not spoil it.

Changes are accepted by the answers they get (`Recorder.acceptedChange?`).
-/

namespace Waveform

namespace SignalId

theorem eq_iff {a b : SignalId} : a = b ↔ a.index = b.index := by
  obtain ⟨i, hi⟩ := a
  obtain ⟨j, hj⟩ := b
  exact SignalId.mk.injEq i hi j hj ▸ Iff.rfl

theorem index_ne {a b : SignalId} (h : a ≠ b) : a.index ≠ b.index := mt eq_iff.mpr h

theorem ofIndex?_eq_some_iff {index : Nat} {id : SignalId} :
    ofIndex? index = some id ↔ id.index = index := by
  obtain ⟨i, hi⟩ := id
  rw [ofIndex?]
  split
  · rw [Option.some.injEq, eq_iff]
    exact eq_comm
  · rename_i hlarge
    simp only [reduceCtorEq, false_iff]
    rintro rfl
    exact hlarge hi

end SignalId

namespace Recorder

variable {r : Recorder} {id : SignalId} {s : Signal} {c : Change} {call : Call}

/-- A new recorder has no signal. -/
theorem getElem?_signals_new (settings : Settings) (id : SignalId) :
    (new settings).signals[id.index]? = none := rfl

/-! ### Adding a change to a signal -/

/-- A change in order is added to the history, and the rest of the signal stays. -/
theorem extend_eq (ho : s.history.outOfOrder? c.time = none) :
    extend c s = { s with history := s.history.push c (History.accepts_of_outOfOrder? ho) } := by
  obtain ⟨name, msi, lsi, history⟩ := s
  exact dif_pos ho

/-- There is no `objection?` to a change when its bits fit the signal and it is in order. -/
theorem objection?_eq_none_iff :
    objection? s c = none ↔
      widthMismatch? s c.value = none ∧ s.history.outOfOrder? c.time = none := by
  rw [objection?]
  cases hwidth : widthMismatch? s c.value with
  | none => simp
  | some why => simp

/-- There is no reason to reject a change of a signal with which nothing is wrong. -/
theorem rejection?_eq_none_iff :
    r.rejection? id c = none ↔ ∃ s, r.signals[id.index]? = some s ∧ objection? s c = none := by
  rw [rejection?]
  cases hs : r.signals[id.index]? with
  | none => simp
  | some s => simp

/-! ### The outcomes of a call -/

/-- A **declaration** is refused when `SignalId.ofIndex?` has no identity left. Otherwise the
signal is added behind the others, under an identity that is its position. -/
theorem declare_cases (r : Recorder) (name : String) (msi lsi : Int32) :
    SignalId.ofIndex? r.signals.size = none ∧
        r.declare name msi lsi = (r, { answer := .full }) ∨
      ∃ id : SignalId, id.index = r.signals.size ∧
        (r.declare name msi lsi).2.answer = .declared id ∧
        (r.declare name msi lsi).1 =
          { r with
            signals := r.signals.push { name := name, msi := msi, lsi := lsi }
            names := (r.names.registerAll id
              (Signal.names { name := name, msi := msi, lsi := lsi })).1 } := by
  rw [declare]
  cases hid : SignalId.ofIndex? r.signals.size with
  | none => exact Or.inl ⟨rfl, rfl⟩
  | some id => exact Or.inr ⟨id, SignalId.ofIndex?_eq_some_iff.mp hid, rfl, rfl⟩

/-- A **change** is rejected and leaves the recorder as it was. Otherwise its signal exists,
there is no `objection?`, and it is added to that signal. -/
theorem record_cases (r : Recorder) (id : SignalId) (c : Change) :
    (∃ why, r.rejection? id c = some why ∧
        r.record id c = (r, { answer := .rejected why, notices := r.rejectionNotices id why })) ∨
      ∃ s, r.signals[id.index]? = some s ∧ objection? s c = none ∧
        r.record id c =
          ({ r with signals := r.signals.modify id.index (extend c) },
            { answer := .recorded }) := by
  rw [record]
  cases hwhy : r.rejection? id c with
  | some why => exact Or.inl ⟨why, rfl, rfl⟩
  | none =>
      obtain ⟨s, hs, hobjection⟩ := rejection?_eq_none_iff.mp hwhy
      exact Or.inr ⟨s, hs, hobjection, rfl⟩

/-- No call alters the settings. -/
theorem settings_perform (r : Recorder) (call : Call) :
    (r.perform call).1.settings = r.settings := by
  cases call with
  | declare name msi lsi =>
      rcases declare_cases r name msi lsi with ⟨-, hfull⟩ | ⟨id, -, -, hr⟩
      · rw [perform, hfull]
      · rw [perform, hr]
  | record id c =>
      rcases record_cases r id c with ⟨why, -, hr⟩ | ⟨s, -, -, hr⟩
      · rw [perform, hr]
      · rw [perform, hr]
  | setTimescale timescale => rfl

/-- The recorder with other settings. -/
def withSettings (r : Recorder) (settings : Settings) : Recorder := { r with settings := settings }

/-- A recorder hands its settings on to the recording. -/
theorem finish_withSettings (r : Recorder) (settings : Settings) :
    (r.withSettings settings).finish = r.finish.withSettings settings := rfl

/-- The settings have **no say** in what `perform` does. -/
theorem perform_withSettings (r : Recorder) (settings : Settings) (call : Call) :
    (r.withSettings settings).perform call =
      ((r.perform call).1.withSettings settings, (r.perform call).2) := by
  cases call with
  | declare name msi lsi =>
      simp only [perform, declare, withSettings]
      cases SignalId.ofIndex? r.signals.size with
      | none => rfl
      | some id => rfl
  | record id c =>
      have hwhy : (r.withSettings settings).rejection? id c = r.rejection? id c := rfl
      rw [perform, perform, record, record, hwhy]
      cases r.rejection? id c with
      | some why => rfl
      | none => rfl
  | setTimescale timescale => rfl

/-- No call declares a signal under an identity that is in use. -/
theorem answer_ne_declared (hs : r.signals[id.index]? = some s) (call : Call) :
    (r.perform call).2.answer ≠ .declared id := by
  have hlt : id.index < r.signals.size := (Array.getElem?_eq_some_iff.mp hs).1
  cases call with
  | declare name msi lsi =>
      rcases declare_cases r name msi lsi with ⟨-, hfull⟩ | ⟨new, hnew, hanswer, -⟩
      · simp [perform, hfull]
      · rw [perform, hanswer, ne_eq, Answer.declared.injEq, SignalId.eq_iff]
        omega
  | record other c =>
      rcases record_cases r other c with ⟨why, -, hr⟩ | ⟨s, -, -, hr⟩
      · simp [perform, hr]
      · simp [perform, hr]
  | setTimescale timescale => simp [perform]

/-! ### What holds of all signals -/

section Invariant

variable {p : Signal → Prop}

/-- **A call preserves** what holds of all signals, as long as it holds of a signal without
changes and is not spoiled by a change to which there is no `objection?`. -/
theorem forall_signals_perform
    (hdeclared : ∀ name msi lsi, p { name := name, msi := msi, lsi := lsi })
    (hextend : ∀ s c, p s → objection? s c = none → p (extend c s))
    (h : ∀ s ∈ r.signals, p s) (call : Call) : ∀ s ∈ (r.perform call).1.signals, p s := by
  cases call with
  | declare name msi lsi =>
      rcases declare_cases r name msi lsi with ⟨-, hfull⟩ | ⟨id, -, -, hr⟩
      · rw [perform, hfull]
        exact h
      · rw [perform, hr]
        intro s hs
        rcases Array.mem_push.mp hs with hs | rfl
        · exact h s hs
        · exact hdeclared name msi lsi
  | record id c =>
      rcases record_cases r id c with ⟨why, -, hr⟩ | ⟨s₀, hs₀, hobjection, hr⟩
      · rw [perform, hr]
        exact h
      · rw [perform, hr]
        intro s hs
        obtain ⟨i, hi⟩ := Array.mem_iff_getElem?.mp hs
        rw [Array.getElem?_modify] at hi
        split at hi
        · rename_i hindex
          rw [← hindex, hs₀, Option.map_some, Option.some.injEq] at hi
          exact hi ▸ hextend s₀ c (h s₀ (Array.mem_of_getElem? hs₀)) hobjection
        · exact h s (Array.mem_of_getElem? hi)
  | setTimescale timescale => exact h

/-- So does a run. -/
theorem forall_signals_run
    (hdeclared : ∀ name msi lsi, p { name := name, msi := msi, lsi := lsi })
    (hextend : ∀ s c, p s → objection? s c = none → p (extend c s))
    (h : ∀ s ∈ r.signals, p s) (calls : List Call) : ∀ s ∈ (r.run calls).1.signals, p s := by
  induction calls generalizing r with
  | nil => exact h
  | cons call calls ih => exact ih (forall_signals_perform hdeclared hextend h call)

end Invariant

/-! ### Seen from one signal -/

/-- The change that was **accepted** for a signal in an exchange, if there was one. -/
def acceptedChange? (id : SignalId) : Call × Answer → Option Change
  | (.record other c, .recorded) => if other = id then some c else none
  | _ => none

/-- A signal as it is after some more changes. -/
structure ExtendsBy (s s' : Signal) (changes : List Change) : Prop where
  name_eq : s'.name = s.name
  msi_eq : s'.msi = s.msi
  lsi_eq : s'.lsi = s.lsi
  toList_eq : s'.history.toList = s.history.toList ++ changes

theorem ExtendsBy.refl (s : Signal) : ExtendsBy s s [] :=
  ⟨rfl, rfl, rfl, (List.append_nil _).symm⟩

theorem ExtendsBy.trans {s s' s'' : Signal} {changes more : List Change}
    (h : ExtendsBy s s' changes) (h' : ExtendsBy s' s'' more) :
    ExtendsBy s s'' (changes ++ more) := by
  refine ⟨h'.name_eq.trans h.name_eq, h'.msi_eq.trans h.msi_eq, h'.lsi_eq.trans h.lsi_eq, ?_⟩
  rw [h'.toList_eq, h.toList_eq, List.append_assoc]

/-- A signal takes a change with which nothing is wrong at the end of its history. -/
theorem extendsBy_extend (hobjection : objection? s c = none) : ExtendsBy s (extend c s) [c] := by
  obtain ⟨-, ho⟩ := objection?_eq_none_iff.mp hobjection
  rw [extend_eq ho]
  exact ⟨rfl, rfl, rfl, History.toList_push _ _ (History.accepts_of_outOfOrder? ho)⟩

/-- **A declared signal** gets the change that the call was accepted for, if it was a change
of that signal, and nothing else. -/
theorem signal_perform (hs : r.signals[id.index]? = some s) (call : Call) :
    ∃ s', (r.perform call).1.signals[id.index]? = some s' ∧
      ExtendsBy s s' (acceptedChange? id (call, (r.perform call).2.answer)).toList := by
  cases call with
  | declare name msi lsi =>
      have hlt : id.index < r.signals.size := (Array.getElem?_eq_some_iff.mp hs).1
      refine ⟨s, ?_, ExtendsBy.refl s⟩
      rcases declare_cases r name msi lsi with ⟨-, hfull⟩ | ⟨new, -, -, hr⟩
      · rw [perform, hfull]
        exact hs
      · rw [perform, hr, Array.getElem?_push_lt hlt, ← hs, Array.getElem?_eq_getElem hlt]
  | record other c =>
      rcases record_cases r other c with ⟨why, -, hr⟩ | ⟨s₀, hs₀, hobjection, hr⟩
      · rw [perform, hr]
        exact ⟨s, hs, ExtendsBy.refl s⟩
      rw [perform, hr]
      simp only [acceptedChange?, Array.getElem?_modify]
      by_cases hother : other = id
      · subst hother
        obtain rfl : s₀ = s := by rwa [hs, Option.some.injEq, eq_comm] at hs₀
        rw [if_pos rfl, if_pos rfl, hs]
        exact ⟨extend c s₀, rfl, extendsBy_extend hobjection⟩
      · rw [if_neg (SignalId.index_ne hother), if_neg hother]
        exact ⟨s, hs, ExtendsBy.refl s⟩
  | setTimescale timescale => exact ⟨s, hs, ExtendsBy.refl s⟩

/-- **A signal that is not declared** gets no change. It stays undeclared, unless the call
declares it, and then it has no change. -/
theorem noSignal_perform (hs : r.signals[id.index]? = none) (call : Call) :
    acceptedChange? id (call, (r.perform call).2.answer) = none ∧
      ((r.perform call).1.signals[id.index]? = none ∧
          (r.perform call).2.answer ≠ .declared id ∨
        ∃ name msi lsi, call = .declare name msi lsi ∧
          (r.perform call).2.answer = .declared id ∧
          (r.perform call).1.signals[id.index]? =
            some { name := name, msi := msi, lsi := lsi }) := by
  have hge : r.signals.size ≤ id.index := Array.getElem?_eq_none_iff.mp hs
  cases call with
  | declare name msi lsi =>
      refine ⟨rfl, ?_⟩
      rcases declare_cases r name msi lsi with ⟨-, hfull⟩ | ⟨new, hnew, hanswer, hr⟩
      · rw [perform, hfull]
        exact Or.inl ⟨hs, by simp⟩
      rw [perform, hanswer, hr]
      by_cases hid : new = id
      · subst hid
        refine Or.inr ⟨name, msi, lsi, rfl, rfl, ?_⟩
        rw [hnew, Array.getElem?_push_size]
      · have hindex : new.index ≠ id.index := SignalId.index_ne hid
        refine Or.inl ⟨?_, by simpa using hid⟩
        rw [Array.getElem?_eq_none_iff, Array.size_push]
        omega
  | record other c =>
      rcases record_cases r other c with ⟨why, -, hr⟩ | ⟨s₀, hs₀, hobjection, hr⟩
      · rw [perform, hr]
        exact ⟨rfl, Or.inl ⟨hs, by simp⟩⟩
      have hother : other ≠ id := by
        rintro rfl
        rw [hs] at hs₀
        exact absurd hs₀ (by simp)
      rw [perform, hr]
      refine ⟨if_neg hother, Or.inl ⟨?_, by simp⟩⟩
      rw [Array.getElem?_modify, if_neg (SignalId.index_ne hother)]
      exact hs
  | setTimescale timescale => exact ⟨rfl, Or.inl ⟨hs, by simp [perform]⟩⟩

end Recorder

end Waveform
