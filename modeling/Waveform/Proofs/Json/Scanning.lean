import Mathlib.Data.List.TakeWhile
import Waveform.Json.Parser
import Waveform.Json.Printer

/-!
# Scanning What Was Written

The writer of JSON puts one piece of text behind the other: a punctuation mark, a word, or
a string in quotes. This module says where the machine that cuts a text into tokens stands
after each of them.

`Token.Scans text s` says that the machine is in the state `s` after the text. Between
two pieces nothing is left open, with one exception: a word ends only at the character
behind it. `Token.State.settled?` are the tokens of a state once such a word has ended,
and `Token.step?_eq_start?` is the reason why nothing else depends on the exception: a
punctuation mark has the same effect behind an open word as behind one that has ended.
-/

namespace Waveform.Json

/-! ### Integers -/

/-- The integer **fits into 64 bits**, signed or unsigned. -/
def FitsWord (n : Int) : Prop := Int64.minValue.toInt ≤ n ∧ n < UInt64.size

namespace Number

theorem ofDigits_toDigits (n : Nat) : ofDigits (Nat.toDigits 10 n) = n :=
  Nat.ofDigitChars_ten_toDigits

theorem isDigit_of_mem_toDigits {n : Nat} {c : Char} (hc : c ∈ Nat.toDigits 10 n) :
    c.isDigit = true :=
  Nat.isDigit_of_mem_toDigits (by decide) (by decide) hc

/-- More digits may follow any but a lone zero: `isWhole` looks at the front only. -/
theorem isWhole_append {digits : List Char} (hwhole : isWhole digits = true)
    (hzero : digits ≠ ['0']) (more : List Char) : isWhole (digits ++ more) = true := by
  unfold isWhole at hwhole
  split at hwhole
  · simp at hwhole
  · exact absurd rfl hzero
  · rename_i c cs hne
    have hc : c ≠ '0' := by simpa using hwhole
    simp [isWhole, hc]

/-- A decimal numeral has a digit, and no leading zero unless it is zero. -/
theorem isWhole_toDigits (n : Nat) : isWhole (Nat.toDigits 10 n) = true := by
  induction n using Nat.strongRecOn with
  | ind n ih =>
      by_cases hlt : n < 10
      · have hsmall : ∀ d < 10, isWhole [Nat.digitChar d] = true := by decide
        rw [Nat.toDigits_of_lt_base hlt]
        exact hsmall n hlt
      · -- the digits before the last one are a numeral too, and not that of zero
        rw [Nat.toDigits_of_base_le (by decide) (by omega)]
        refine isWhole_append (ih (n / 10) (by omega)) ?_ _
        intro hzero
        have hvalue := ofDigits_toDigits (n / 10)
        rw [hzero] at hvalue
        have : 0 = n / 10 := hvalue
        omega

theorem spanDigits_of_forall {digits : List Char} (hdigits : ∀ c ∈ digits, c.isDigit = true) :
    spanDigits digits = (digits, []) := by
  rw [spanDigits, List.takeWhile_eq_self_iff.mpr hdigits, List.dropWhile_eq_nil_iff.mpr hdigits]

/-- A numeral without fraction and exponent is read by `integer?`. -/
theorem unsigned?_toDigits (negative : Bool) (n : Nat) :
    unsigned? negative (Nat.toDigits 10 n) = integer? negative (Nat.toDigits 10 n) := by
  have hspan : spanDigits (Nat.toDigits 10 n) = (Nat.toDigits 10 n, []) :=
    spanDigits_of_forall fun _ => isDigit_of_mem_toDigits
  simp [unsigned?, hspan, isWhole_toDigits, fraction?, exponent?]

/-- A numeral does not begin with a minus sign. -/
theorem parse?_toDigits (n : Nat) :
    parse? (Nat.toDigits 10 n) = unsigned? false (Nat.toDigits 10 n) := by
  unfold parse?
  split
  · rename_i text heq
    have hminus : '-'.isDigit = true :=
      isDigit_of_mem_toDigits (n := n) (by rw [heq]; exact List.mem_cons_self)
    contradiction
  · rfl

theorem parse?_minus (text : List Char) : parse? ('-' :: text) = unsigned? true text := rfl

end Number

/-- The digits of an integer, behind a minus sign if it is negative. -/
theorem toList_toString_int (n : Int) :
    (toString n).toList =
      if 0 ≤ n then Nat.toDigits 10 n.toNat else '-' :: Nat.toDigits 10 (-n).toNat := by
  rw [Int.toString_eq_repr, Int.repr_eq_if]
  split
  · rw [← Nat.toString_eq_repr, Nat.toString_eq_ofList_toDigits, String.toList_ofList]
  · rw [← Nat.toString_eq_repr, Nat.toString_eq_ofList_toDigits, String.toList_append,
      String.toList_ofList, String.toList_ofList]
    rfl

/-- An integer for which `FitsWord` holds is **read back** from its digits. -/
theorem Number.parse?_toString {n : Int} (hn : FitsWord n) :
    Number.parse? (toString n).toList = some (.int n) := by
  obtain ⟨hmin, hmax⟩ := hn
  rw [toList_toString_int]
  split
  · rename_i hpos
    rw [parse?_toDigits, unsigned?_toDigits, integer?, ofDigits_toDigits]
    have hlt : n.toNat < UInt64.size := by omega
    simp [hlt, Int.toNat_of_nonneg hpos]
  · rename_i hneg
    have hcast : ((-n).toNat : Int) = -n := Int.toNat_of_nonneg (by omega)
    rw [parse?_minus, unsigned?_toDigits, integer?, ofDigits_toDigits,
      if_pos ⟨rfl, by omega, by omega⟩, hcast, Int.neg_neg]

namespace Token

/-! ### Words -/

/-- The characters of an integer are digits, or the minus sign. -/
theorem mem_toString_int {n : Int} {c : Char} (hc : c ∈ (toString n).toList) :
    c.isDigit = true ∨ c = '-' := by
  rw [toList_toString_int] at hc
  split at hc
  · exact .inl (Number.isDigit_of_mem_toDigits hc)
  · rcases List.mem_cons.mp hc with rfl | hc
    · exact .inr rfl
    · exact .inl (Number.isDigit_of_mem_toDigits hc)

theorem isWordChar_of_mem_toString_int {n : Int} {c : Char} (hc : c ∈ (toString n).toList) :
    isWordChar c = true := by
  rcases mem_toString_int hc with hdigit | rfl
  · simp [isWordChar, Char.isAlphanum, hdigit]
  · decide

/-- A word with a character that no number has. -/
theorem ofList_toString_ne {n : Int} {word : String} {c : Char} (hmem : c ∈ word.toList)
    (hdigit : c.isDigit = false) (hminus : c ≠ '-') :
    String.ofList (toString n).toList ≠ word := by
  rintro rfl
  rw [String.toList_ofList] at hmem
  rcases mem_toString_int hmem with h | h
  · simp [h] at hdigit
  · exact hminus h

theorem ofWord?_toString {n : Int} (hn : FitsWord n) :
    ofWord? (toString n).toList = some (.value (.int n)) := by
  unfold ofWord?
  split
  · rename_i heq
    exact absurd heq (ofList_toString_ne (c := 'n') (by decide) (by decide) (by decide))
  · rename_i heq
    exact absurd heq (ofList_toString_ne (c := 't') (by decide) (by decide) (by decide))
  · rename_i heq
    exact absurd heq (ofList_toString_ne (c := 'f') (by decide) (by decide) (by decide))
  · rw [Number.parse?_toString hn, Option.map_some]

/-! ### The machine -/

/-- After the text, the machine of `step?` is in the state. -/
def Scans (text : String) (s : State) : Prop := text.toList.foldlM step? {} = some s

theorem scans_empty : Scans "" {} := rfl

theorem Scans.append {text more : String} {s s' : State} (hs : Scans text s)
    (hmore : more.toList.foldlM step? s = some s') : Scans (text ++ more) s' := by
  rw [Scans, String.toList_append, List.foldlM_append, hs]
  exact hmore

theorem Scans.push {text : String} {s s' : State} {c : Char} (hs : Scans text s)
    (hc : step? s c = some s') : Scans (text.push c) s' := by
  rw [Scans, String.toList_push, List.foldlM_append, hs]
  simpa using hc

/-- The tokens of a state in which no string is open. An open word counts as one that ends
here. -/
def State.settled? (s : State) : Option (List Token) :=
  match s.mode with
  | .between => some s.tokens
  | .word letters => (ofWord? letters.reverse).map (· :: s.tokens)
  | _ => none

/-- A state in which no string is open is between tokens, or a complete word is open. -/
theorem State.settled?_cases {s : State} {tokens : List Token} (hs : s.settled? = some tokens) :
    s = { tokens := tokens } ∨
      ∃ found letters token, s = { tokens := found, mode := .word letters } ∧
        ofWord? letters.reverse = some token ∧ tokens = token :: found := by
  obtain ⟨found, mode⟩ := s
  cases mode with
  | between =>
      obtain rfl : found = tokens := Option.some.inj hs
      exact .inl rfl
  | word letters =>
      obtain ⟨token, hword, rfl⟩ := Option.map_eq_some_iff.mp hs
      exact .inr ⟨found, letters, token, rfl, hword, rfl⟩
  | _ => simp [State.settled?] at hs

/-- A punctuation mark has the **same effect** behind an open word as `start?` gives it behind
one that has ended. -/
theorem step?_eq_start? {s : State} {tokens : List Token} {c : Char}
    (hs : s.settled? = some tokens) (hc : isWordChar c = false) :
    step? s c = start? tokens c := by
  obtain rfl | ⟨found, letters, token, rfl, hword, rfl⟩ := State.settled?_cases hs
  · rfl
  · simp [step?, hc, hword]

/-- So has the end of the text, by `finish?`. -/
theorem finish?_eq {s : State} {tokens : List Token} (hs : s.settled? = some tokens) :
    finish? s = some tokens.reverse := by
  obtain rfl | ⟨found, letters, token, rfl, hword, rfl⟩ := State.settled?_cases hs
  · rfl
  · simp [finish?, hword]

/-! ### Words behind a text -/

/-- A word begins with its first character. -/
theorem start?_of_isWordChar (tokens : List Token) {c : Char} (hc : isWordChar c = true) :
    start? tokens c = some { tokens := tokens, mode := .word [c] } := by
  have hne : ∀ d : Char, isWordChar d = false → c ≠ d := by
    rintro d hd rfl
    simp [hd] at hc
  have hblank : isBlank c = false := by
    simp [isBlank, hne ' ' (by decide), hne '\t' (by decide), hne '\n' (by decide),
      hne '\r' (by decide)]
  rw [start?, if_neg (by simp [hblank])]
  · exact if_pos hc
  all_goals
    intro heq
    exact hne _ (by decide) heq

/-- An open word takes the characters for which `isWordChar` holds. -/
theorem foldlM_word (tokens : List Token) {letters more : List Char}
    (hmore : ∀ c ∈ more, isWordChar c = true) :
    more.foldlM step? { tokens := tokens, mode := .word letters } =
      some { tokens := tokens, mode := .word (more.reverse ++ letters) } := by
  induction more generalizing letters with
  | nil => rfl
  | cons c cs ih =>
      have hc : isWordChar c = true := hmore c List.mem_cons_self
      have hstep : step? { tokens := tokens, mode := .word letters } c =
          some { tokens := tokens, mode := .word (c :: letters) } := by
        simp [step?, hc]
      have hrest : ∀ d ∈ cs, isWordChar d = true := fun d hd =>
        hmore d (List.mem_cons_of_mem c hd)
      rw [List.foldlM_cons, hstep, List.reverse_cons, List.append_assoc]
      exact ih hrest

/-- A **word** that is written between tokens becomes its token once it has ended. -/
theorem Scans.word {text word : String} {tokens : List Token} {token : Token}
    (hs : Scans text { tokens := tokens }) (hword : ofWord? word.toList = some token)
    (hchars : ∀ c ∈ word.toList, isWordChar c = true) (hne : word.toList ≠ []) :
    ∃ s, Scans (text ++ word) s ∧ s.settled? = some (token :: tokens) := by
  obtain ⟨c, cs, hcons⟩ := List.exists_cons_of_ne_nil hne
  rw [hcons] at hchars
  have hfirst : step? { tokens := tokens } c = some { tokens := tokens, mode := .word [c] } :=
    start?_of_isWordChar tokens (hchars c List.mem_cons_self)
  refine ⟨{ tokens := tokens, mode := .word (cs.reverse ++ [c]) }, hs.append ?_, ?_⟩
  · rw [hcons, List.foldlM_cons, hfirst]
    exact foldlM_word tokens fun d hd => hchars d (List.mem_cons_of_mem c hd)
  · simp [State.settled?, ← hcons, hword]

/-! ### Strings behind a text -/

/-- A control character is written by `controlDigits` with four digits, of which the first two
are zero. -/
theorem toList_controlDigits {c : Char} (hc : c < ' ') :
    (controlDigits c).toList =
      ['0', '0', Nat.digitChar (c.toNat / 16), Nat.digitChar (c.toNat % 16)] := by
  have hlt : c.toNat < 32 := hc
  have hall : ∀ n < 32, List.replicate (4 - (Nat.toDigits 16 n).length) '0' ++ Nat.toDigits 16 n =
      ['0', '0', Nat.digitChar (n / 16), Nat.digitChar (n % 16)] := by decide
  rw [controlDigits, String.toList_ofList]
  exact hall c.toNat hlt

theorem hexDigit?_digitChar {d : Nat} (hd : d < 16) : hexDigit? (Nat.digitChar d) = some d := by
  revert d
  decide

/-- The number of a control character is **read back** from its digits. -/
theorem foldlM_controlDigits (tokens : List Token) (text : String) {c : Char} (hc : c < ' ') :
    (controlDigits c).toList.foldlM step?
        { tokens := tokens, mode := .number text none 0 0 } =
      some { tokens := tokens, mode := .string (text.push c) } := by
  have hlt : c.toNat < 32 := hc
  have hhigh : hexDigit? (Nat.digitChar (c.toNat / 16)) = some (c.toNat / 16) :=
    hexDigit?_digitChar (by omega)
  have hlow : hexDigit? (Nat.digitChar (c.toNat % 16)) = some (c.toNat % 16) :=
    hexDigit?_digitChar (by omega)
  have hzero : hexDigit? '0' = some 0 := by decide
  have hnumber : 16 * (c.toNat / 16) + c.toNat % 16 = c.toNat := by omega
  have hafter : afterNumber? text none c.toNat = some (.string (text.push c)) := by
    have hnothigh : isHighSurrogate c.toNat = false := by simp [isHighSurrogate]; omega
    have hnotlow : isLowSurrogate c.toNat = false := by simp [isLowSurrogate]; omega
    simp [afterNumber?, hnothigh, hnotlow]
  rw [toList_controlDigits hc]
  simp [step?, hzero, hhigh, hlow, hnumber, hafter]

/-- Within a string, what `printChar` writes stands for the character. -/
theorem Scans.printChar {out text : String} {tokens : List Token}
    (hs : Scans out { tokens := tokens, mode := .string text }) (c : Char) :
    Scans (printChar out c) { tokens := tokens, mode := .string (text.push c) } := by
  unfold Json.printChar
  split
  · rename_i hquote
    subst hquote
    exact hs.append rfl
  split
  · rename_i hbackslash
    subst hbackslash
    exact hs.append rfl
  split
  · rename_i hcontrol
    have hopen : Scans (out ++ "\\u") { tokens := tokens, mode := .number text none 0 0 } :=
      hs.append rfl
    exact hopen.append (foldlM_controlDigits tokens text hcontrol)
  · rename_i hquote hbackslash hcontrol
    refine hs.push ?_
    simp [step?, inString?, hquote, hbackslash, hcontrol]

/-- Within a string, written characters are added to it. -/
theorem Scans.printChars {out text : String} {tokens : List Token}
    (hs : Scans out { tokens := tokens, mode := .string text }) (chars : List Char) :
    Scans (chars.foldl Json.printChar out)
      { tokens := tokens, mode := .string (text ++ String.ofList chars) } := by
  induction chars generalizing out text with
  | nil => simpa using hs
  | cons c cs ih =>
      have hrest := ih (hs.printChar c)
      have hsplit : text.push c ++ String.ofList cs = text ++ String.ofList (c :: cs) := by
        apply String.ext
        simp
      rwa [hsplit] at hrest

/-- A **string** that `printString` writes between tokens becomes its token with its last
quote. -/
theorem Scans.printString {out : String} {tokens : List Token}
    (hs : Scans out { tokens := tokens }) (text : String) :
    Scans (printString out text) { tokens := .value (.str text) :: tokens } := by
  have hopen : Scans (out.push '"') { tokens := tokens, mode := .string "" } := hs.push rfl
  have hall := hopen.printChars text.toList
  rw [String.ofList_toList, String.empty_append] at hall
  exact hall.push rfl

end Token

end Waveform.Json
