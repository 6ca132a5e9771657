import Waveform.Proofs.Reading.Kind
import Waveform.Proofs.Recording.Sampling

/-!
# Recorded Values Fit

A recorder looks at the number of bits of a value once, when the change is offered. That is
enough to know it for good: the range of a signal does not change, and changes are never
altered. So the values of every signal fit it, in every recorder that a run can reach
(`Recorder.allFit_run`).

For a finished recording it follows that a query can tell three cases apart and no more.
There is no change in effect, or the change in effect is silent, or the reading is of the
kind that the width of the signal and the value in effect determine. The main statement,
`Recorder.recorded_values_fit`, says so with the changes taken from the log of the run.
-/

namespace Waveform

/-- All values of the signal **fit** it, by `Value.Fits`. -/
def Signal.AllFit (s : Signal) : Prop := ∀ c ∈ s.history.toList, c.value.Fits s

namespace Recorder

variable {r : Recorder} {id : SignalId} {s : Signal} {c : Change}

/-! ### One change -/

/-- A change to which there is no `objection?` leaves a signal whose values fit. -/
theorem allFit_extend (hs : s.AllFit) (hobjection : objection? s c = none) :
    (extend c s).AllFit := by
  obtain ⟨-, hmsi, hlsi, hlist⟩ := extendsBy_extend hobjection
  have hc : c.value.Fits s :=
    widthMismatch?_eq_none_iff.mp (objection?_eq_none_iff.mp hobjection).1
  intro d hd
  rw [Value.Fits, hmsi, hlsi]
  rw [hlist, List.mem_append, List.mem_singleton] at hd
  rcases hd with hd | rfl
  · exact hs d hd
  · exact hc

/-! ### A run -/

/-- **A run preserves** that all values fit. -/
theorem allFit_run (h : ∀ s ∈ r.signals, s.AllFit) (calls : List Call) :
    ∀ s ∈ (r.run calls).1.signals, s.AllFit :=
  forall_signals_run (fun _ _ _ _ hc => absurd hc List.not_mem_nil)
    (fun _ _ => allFit_extend) h calls

/-- The history of a signal has the changes that were `accepted` for it. -/
theorem toList_eq_accepted {settings : Settings} {calls : List Call}
    (hs : ((new settings).run calls).1.signals[id.index]? = some s) :
    s.history.toList = accepted id ((new settings).exchanges calls) := by
  have hdeclared : ∃ name msi lsi,
      (Call.declare name msi lsi, Answer.declared id) ∈ (new settings).exchanges calls := by
    by_contra hnever
    simp only [not_exists] at hnever
    have hnone := (signal_eq_none_iff settings calls id).mpr hnever
    rw [hs] at hnone
    exact absurd hnone (by simp)
  obtain ⟨name, msi, lsi, hmem⟩ := hdeclared
  obtain ⟨s', hs', hextends⟩ := declared_run (getElem?_signals_new settings id) hmem
  obtain rfl : s = s' := Option.some.inj (hs.symm.trans hs')
  exact hextends.toList_eq

/-! ### The finished recording -/

/-- **Recorded values fit, and the width decides what is read.** After any run, every value of a
signal is a real, the empty vector, or has exactly as many bits as the range of the signal, and
the finished recording has these signals. Let `query?` ask about one of them, under the settings
of the run or any later ones, and take the last change that was `accepted` for it up to the time.
The reading is unknown exactly when there is no such change, or it has the empty vector, or the
signal has several bits and the time of the change is negative. Otherwise the reading is of the
`ReadingKind` that the width of the signal and the value of the change determine. -/
theorem recorded_values_fit (settings : Settings) (calls : List Call) :
    let r := ((new settings).run calls).1
    (∀ s ∈ r.signals, ∀ c ∈ s.history.toList,
      (∃ number, c.value = .real number) ∨ c.value = .vector [] ∨
        ∃ bits, c.value.bits? = some bits ∧
          bits.length = (s.msi.toInt - s.lsi.toInt).natAbs + 1) ∧
      r.finish.signals = r.signals ∧ r.finish.settings = settings ∧
      ∀ (later : Settings) (id : SignalId) (s : Signal), r.finish.signal? id = some s →
        ∀ time,
          let width := (s.msi.toInt - s.lsi.toInt).natAbs + 1
          let last? := lastUpTo? (accepted id ((new settings).exchanges calls)) time
          ∃ reading, (r.finish.withSettings later).query? id time = some reading ∧
            (reading = .unknown ↔ last? = none ∨ ∃ c, last? = some c ∧
              (c.value = .vector [] ∨ 1 < width ∧ c.time < 0)) ∧
            ∀ c, last? = some c → reading ≠ .unknown →
              ReadingKind width later.unknownBits c.value reading := by
  intro r
  have hfit : ∀ s ∈ r.signals, s.AllFit :=
    allFit_run (fun s hs => absurd hs (Array.not_mem_empty s)) calls
  refine ⟨fun s hs c hc => Value.fits_iff.mp (hfit s hs c hc), rfl,
    settings_run (new settings) calls, ?_⟩
  intro later id s hs time width last?
  have hsignal : (r.finish.withSettings later).signal? id = some s := hs
  have hlog : lastUpTo? s.history.toList time = last? := by rw [toList_eq_accepted hs]
  refine ⟨_, Recording.query?_eq hsignal time, ?_⟩
  rw [hlog]
  cases hlast : last? with
  | none => simp [Engine.decode_none]
  | some c =>
      have hc : c ∈ s.history.toList :=
        List.mem_of_mem_filter (List.mem_of_getLast? (hlog.trans hlast))
      have hfits : c.value.Fits s := hfit s (Array.mem_of_getElem? hs) c hc
      refine ⟨?_, ?_⟩
      · rw [Engine.decode_eq_unknown_iff hfits]
        simp [Change.IsSilent, width, Signal.width]
      · intro d hd hknown
        obtain rfl : c = d := Option.some.inj hd
        exact Engine.readingKind_decode hfits hknown

/-- A bus of two bits, with a change before time zero, one that has too few bits, and one with
an unknown bit. -/
theorem recorded_values_fit_bus :
    let bus : SignalId := ⟨0, by decide⟩
    let calls : List Call :=
      [.declare "bus" 1 0, .record bus ⟨-3, .vector [.one, .one]⟩, .record bus ⟨2, .scalar .one⟩,
        .record bus ⟨5, .vector [.one, .x]⟩]
    let recording := ((new {}).run calls).1.finish.withSettings { unknownBits := .propagate }
    recording.query? bus 4 = some .unknown ∧
      ∃ written, recording.query? bus 5 = some (.partiallyUnknown written) ∧
        written.length = 2 := by
  intro bus calls recording
  have hlaws := (recorded_values_fit {} calls).2.2.2 { unknownBits := .propagate } bus _ rfl
  refine ⟨?_, ?_⟩
  · have hlast : lastUpTo? (accepted bus ((new {}).exchanges calls)) 4 =
        some ⟨-3, .vector [.one, .one]⟩ := by decide
    obtain ⟨reading, hread, hunknown, -⟩ := hlaws 4
    rw [hunknown.mpr (Or.inr ⟨_, hlast, Or.inr ⟨by decide, by decide⟩⟩)] at hread
    exact hread
  · have hlast : lastUpTo? (accepted bus ((new {}).exchanges calls)) 5 =
        some ⟨5, .vector [.one, .x]⟩ := by decide
    obtain ⟨reading, hread, hunknown, hkind⟩ := hlaws 5
    have hknown : reading ≠ .unknown := by
      rw [ne_eq, hunknown, hlast]
      simp
    cases hkind _ hlast hknown with
    | text _ _ _ _ hlength => exact ⟨_, hread, hlength⟩
    | real hvalue => simp at hvalue
    | scalar hwidth => exact absurd hwidth (by decide)
    | word _ _ hbits hcounted =>
        obtain rfl := Option.some.inj hbits
        exact absurd hcounted (by decide)
    | numeral hwide => exact absurd hwide (by decide)

end Recorder

end Waveform
