import Waveform.Bit.Text

/-!
# The Grammar of Bit Strings

A bit string is any text over fifteen characters, `Bit.characters`: one for each state, and
both cases of those that are letters. Reading goes through the text from the front, and there
are only two ways for it to end:

* `Bit.readChars_of_forall`: if every character is one of these, there is a bit for each, and
  the bits are written as the same characters in lower case;
* `Bit.readChars_of_first`: otherwise the first character that is none of these is reported,
  whatever comes after it.

The main statement, `Bit.parse_grammar`, turns both into equivalences, and adds that reading
inverts writing.
-/

namespace Waveform

namespace Bit

/-- The **characters** of bit strings: those that `ofChar?` reads. -/
def characters : List Char :=
  ['0', '1', 'x', 'X', 'z', 'Z', 'h', 'H', 'u', 'U', 'w', 'W', 'l', 'L', '-']

variable {c : Char} {cs before after : List Char} {b : Bit} {bits bits' : List Bit}

/-- Bits are known when their `char`s are. -/
theorem map_char_inj : bits.map char = bits'.map char ↔ bits = bits' := by
  refine ⟨fun heq => ?_, congrArg _⟩
  have hread := congrArg readChars heq
  rwa [readChars_map_char, readChars_map_char, Except.ok.injEq] at hread

/-- Bits are known when their text is: `render` is injective. -/
theorem render_inj : render bits = render bits' ↔ bits = bits' := by
  rw [render, render, String.ofList_inj, map_char_inj]

/-! ### One character -/

/-- What `ofChar?` reads as a state is one of the `characters`, and the state is written as that
character in lower case. -/
theorem of_ofChar?_eq_some (hread : ofChar? c = some b) :
    c ∈ characters ∧ b.char = c.toLower := by
  unfold ofChar? at hread
  split at hread
  all_goals cases hread
  all_goals decide

/-- Every one of the `characters` is read as a state. -/
theorem isSome_ofChar? (hmem : c ∈ characters) : (ofChar? c).isSome := by
  have hall : (characters.all fun c => (ofChar? c).isSome) = true := by decide
  exact List.all_eq_true.mp hall c hmem

theorem readChar_of_mem (hmem : c ∈ characters) :
    ∃ b, readChar c = .ok b ∧ b.char = c.toLower := by
  obtain ⟨b, hread⟩ := Option.isSome_iff_exists.mp (isSome_ofChar? hmem)
  exact ⟨b, by rw [readChar, hread], (of_ofChar?_eq_some hread).2⟩

/-- A character that is none of the `characters` is reported. -/
theorem readChar_of_notMem (hnot : c ∉ characters) : readChar c = .error (.unknownChar c) := by
  rw [readChar]
  cases hread : ofChar? c with
  | none => rfl
  | some b => exact absurd (of_ofChar?_eq_some hread).1 hnot

/-! ### All characters -/

/-- **A text over the characters of bit strings** is read by `readChars` as bits that are written
as its characters in lower case. -/
theorem readChars_of_forall (hall : ∀ c ∈ cs, c ∈ characters) :
    ∃ bits, readChars cs = .ok bits ∧ bits.map char = cs.map Char.toLower := by
  induction cs with
  | nil => exact ⟨[], rfl, rfl⟩
  | cons c cs ih =>
      obtain ⟨hc, hcs⟩ := List.forall_mem_cons.mp hall
      obtain ⟨b, hb, hchar⟩ := readChar_of_mem hc
      obtain ⟨bits, hbits, hchars⟩ := ih hcs
      refine ⟨b :: bits, by rw [readChars, hb, hbits], ?_⟩
      rw [List.map_cons, List.map_cons, hchar, hchars]

/-- **The first other character** is reported, whatever comes after it. -/
theorem readChars_of_first (hbefore : ∀ d ∈ before, d ∈ characters) (hc : c ∉ characters) :
    readChars (before ++ c :: after) = .error (.unknownChar c) := by
  induction before with
  | nil => rw [List.nil_append, readChars, readChar_of_notMem hc]
  | cons d ds ih =>
      obtain ⟨hd, hds⟩ := List.forall_mem_cons.mp hbefore
      obtain ⟨b, hb, -⟩ := readChar_of_mem hd
      rw [List.cons_append, readChars, hb, ih hds]

/-- Unless all characters are among the `characters`, there is a first one that is not. -/
theorem forall_or_exists_first (cs : List Char) :
    (∀ c ∈ cs, c ∈ characters) ∨ ∃ before c after, cs = before ++ c :: after ∧
      (∀ d ∈ before, d ∈ characters) ∧ c ∉ characters := by
  induction cs with
  | nil => exact Or.inl fun c hc => absurd hc List.not_mem_nil
  | cons d ds ih =>
      by_cases hd : d ∈ characters
      · rcases ih with hall | ⟨before, c, after, rfl, hbefore, hc⟩
        · exact Or.inl (List.forall_mem_cons.mpr ⟨hd, hall⟩)
        · exact Or.inr ⟨d :: before, c, after, rfl, List.forall_mem_cons.mpr ⟨hd, hbefore⟩, hc⟩
      · exact Or.inr ⟨[], d, ds, rfl, fun c hc => absurd hc List.not_mem_nil, hd⟩

/-- Bits are read exactly from the `characters` that they are written as, up to case. -/
theorem readChars_eq_ok_iff :
    readChars cs = .ok bits ↔
      (∀ c ∈ cs, c ∈ characters) ∧ bits.map char = cs.map Char.toLower := by
  rcases forall_or_exists_first cs with hall | ⟨before, c, after, rfl, hbefore, hc⟩
  · obtain ⟨bits', hread, hchars⟩ := readChars_of_forall hall
    rw [hread, Except.ok.injEq, and_iff_right hall, ← hchars, map_char_inj, eq_comm]
  · rw [readChars_of_first hbefore hc]
    simp only [reduceCtorEq, false_iff, not_and]
    exact fun hall => absurd (hall c (by simp)) hc

/-- An error is exactly the report of the first character that is none of the `characters`. -/
theorem readChars_eq_error_iff {e : BitError} :
    readChars cs = .error e ↔ ∃ before c after, cs = before ++ c :: after ∧
      (∀ d ∈ before, d ∈ characters) ∧ c ∉ characters ∧ e = .unknownChar c := by
  constructor
  · intro herror
    rcases forall_or_exists_first cs with hall | ⟨before, c, after, rfl, hbefore, hc⟩
    · obtain ⟨bits, hread, -⟩ := readChars_of_forall hall
      rw [hread] at herror
      exact absurd herror (by simp)
    · rw [readChars_of_first hbefore hc, Except.error.injEq] at herror
      exact ⟨before, c, after, rfl, hbefore, hc, herror.symm⟩
  · rintro ⟨before, c, after, rfl, hbefore, hc, rfl⟩
    exact readChars_of_first hbefore hc

/-! ### Texts -/

/-- A text is written by `render` from bits in lower case exactly when its characters are. -/
theorem render_eq_toLower_iff {text : String} :
    render bits = text.toLower ↔ bits.map char = text.toList.map Char.toLower := by
  have hlower : text.toLower.toList = text.toList.map Char.toLower := String.toList_map
  rw [← String.toList_inj, render, String.toList_ofList, hlower]

/-- **Bit strings have exactly one grammar**: they are the texts over the fifteen `characters`.
From such a text `parse` reads bits, one for each character, and they are those for which
`render` gives the text with its letters in lower case. From any other text it reads an error,
which reports the first character that is none of the fifteen. Reading inverts writing. -/
theorem parse_grammar :
    (∀ text, (∃ bits, parse text = .ok bits) ↔ ∀ c ∈ text.toList, c ∈ characters) ∧
      (∀ text bits, parse text = .ok bits ↔
        (∀ c ∈ text.toList, c ∈ characters) ∧ bits.length = text.length ∧
          render bits = text.toLower) ∧
      (∀ text e, parse text = .error e ↔
        ∃ before c after, text.toList = before ++ c :: after ∧
          (∀ d ∈ before, d ∈ characters) ∧ c ∉ characters ∧ e = .unknownChar c) ∧
      ∀ bits, parse (render bits) = .ok bits := by
  refine ⟨fun text => ⟨?_, fun hall => ?_⟩, fun text bits => ?_,
    fun text e => readChars_eq_error_iff, parse_render⟩
  · rintro ⟨bits, hread⟩
    exact (readChars_eq_ok_iff.mp hread).1
  · obtain ⟨bits, hread, -⟩ := readChars_of_forall hall
    exact ⟨bits, hread⟩
  · rw [parse, readChars_eq_ok_iff, render_eq_toLower_iff]
    refine and_congr_right fun _ => (and_iff_right_of_imp fun hchars => ?_).symm
    have hlength := congrArg List.length hchars
    rwa [List.length_map, List.length_map, String.length_toList] at hlength

end Bit

end Waveform
