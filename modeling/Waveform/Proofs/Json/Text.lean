import Waveform.Proofs.Json.Scanning

/-!
# Reading What Was Written

The text that the writer of JSON produces for a value is read as that value. This holds of
an **exact** value: its integers fit into 64 bits, the keys of an object differ, and it has
no real, since a real that is no finite number is written as null.

Reading takes two machines, one for characters and one for tokens. `Reads text p` puts them
together: after the text, the parser has come to `p`, once an open word has ended. Writing
keeps track of this:

* `Reads.punctuation`, `ReadsBetween.word` and `ReadsBetween.string`: one more token behind
  the text is one more step of the parser;
* `IsExact.readsBack`: one more value behind the text is put where the parser awaits one.

`IsExact.parse?_text` is the second of them behind the empty text.
-/

namespace Waveform.Json

open Token

/-- A value that is **exact** in its text: its integers fit into 64 bits, it has no `real`, and
its keys are different. -/
inductive IsExact : Json → Prop
  | null : IsExact .null
  | bool (value : Bool) : IsExact (.bool value)
  | int {n : Int} (fits : FitsWord n) : IsExact (.int n)
  | str (value : String) : IsExact (.str value)
  | arr {elements : List Json} (exact : ∀ j ∈ elements, IsExact j) : IsExact (.arr elements)
  | obj {members : List (String × Json)} (distinct : (members.map Prod.fst).Nodup)
      (exact : ∀ m ∈ members, IsExact m.2) : IsExact (.obj members)

/-! ### Where the parser stands behind a text -/

/-- After the text, and once an open word has ended, the parser has come to `p`. -/
def Reads (text : String) (p : Progress) : Prop :=
  ∃ s tokens, Scans text s ∧ s.settled? = some tokens ∧
    tokens.reverse.foldlM Progress.step? {} = some p

/-- After the text the parser has come to `p`, and no word is open. -/
def ReadsBetween (text : String) (p : Progress) : Prop :=
  ∃ tokens, Scans text { tokens := tokens } ∧ tokens.reverse.foldlM Progress.step? {} = some p

theorem ReadsBetween.reads {text : String} {p : Progress} (h : ReadsBetween text p) :
    Reads text p := by
  obtain ⟨tokens, hs, hp⟩ := h
  exact ⟨{ tokens := tokens }, tokens, hs, rfl, hp⟩

theorem readsBetween_empty : ReadsBetween "" {} := ⟨[], scans_empty, rfl⟩

/-- One more token is one more `step?`. -/
theorem foldlM_step?_cons {tokens : List Token} {token : Token} {p p' : Progress}
    (hp : tokens.reverse.foldlM Progress.step? {} = some p) (hstep : p.step? token = some p') :
    (token :: tokens).reverse.foldlM Progress.step? {} = some p' := by
  rw [List.reverse_cons, List.foldlM_append, hp]
  simpa using hstep

/-- A punctuation mark is one more token. -/
theorem Reads.punctuation {text : String} {p p' : Progress} {c : Char} {token : Token}
    (h : Reads text p) (hc : isWordChar c = false)
    (hstart : ∀ tokens, start? tokens c = some { tokens := token :: tokens })
    (hstep : p.step? token = some p') : ReadsBetween (text.push c) p' := by
  obtain ⟨s, tokens, hs, hsettled, hp⟩ := h
  refine ⟨token :: tokens, hs.push ?_, foldlM_step?_cons hp hstep⟩
  rw [step?_eq_start? hsettled hc, hstart]

/-- A word behind `ReadsBetween` is one more token. -/
theorem ReadsBetween.word {text word : String} {p p' : Progress} {token : Token}
    (h : ReadsBetween text p) (hword : ofWord? word.toList = some token)
    (hchars : ∀ c ∈ word.toList, isWordChar c = true) (hne : word.toList ≠ [])
    (hstep : p.step? token = some p') : Reads (text ++ word) p' := by
  obtain ⟨tokens, hs, hp⟩ := h
  obtain ⟨s, hs', hsettled⟩ := hs.word hword hchars hne
  exact ⟨s, token :: tokens, hs', hsettled, foldlM_step?_cons hp hstep⟩

/-- A string behind `ReadsBetween` is one more token. -/
theorem ReadsBetween.string {text : String} {p p' : Progress} (h : ReadsBetween text p)
    (value : String) (hstep : p.step? (.value (.str value)) = some p') :
    ReadsBetween (printString text value) p' := by
  obtain ⟨tokens, hs, hp⟩ := h
  exact ⟨.value (.str value) :: tokens, hs.printString value, foldlM_step?_cons hp hstep⟩

/-- A text behind which the value is complete is read as that value. -/
theorem Reads.parse? {text : String} {j : Json} (h : Reads text (Progress.complete [] j)) :
    Json.parse? text = some j := by
  obtain ⟨s, tokens, hs, hsettled, hp⟩ := h
  rw [Json.parse?, scan?, hs, Option.bind_some, finish?_eq hsettled, Option.bind_some, ofTokens?,
    hp]
  rfl

/-! ### Where the parser awaits a value -/

namespace Progress

/-- A value may come next, within the containers of the stack. -/
inductive Awaits : Progress → List Container → Prop
  | value (stack : List Container) : Awaits { stack := stack } stack
  | firstElement (stack : List Container) :
      Awaits { stack := .array [] :: stack, expects := .firstElement } (.array [] :: stack)

variable {p : Progress} {stack : List Container}

/-- A token with which a value begins is taken by `begin?` in the same way wherever one is
awaited. -/
theorem Awaits.step? (h : p.Awaits stack) {token : Token} (hne : token ≠ .closeArray) :
    p.step? token = begin? stack token := by
  cases h with
  | value => cases token <;> rfl
  | firstElement =>
      cases token with
      | closeArray => exact absurd rfl hne
      | _ => rfl

end Progress

/-- A key that is new comes last by `setMember`. -/
theorem setMember_of_notMem {key : String} {members : List (String × Json)} (value : Json)
    (hnew : key ∉ members.map Prod.fst) :
    setMember key value members = members ++ [(key, value)] := by
  induction members with
  | nil => rfl
  | cons m ms ih =>
      obtain ⟨k, v⟩ := m
      simp only [List.map_cons, List.mem_cons, not_or] at hnew
      rw [setMember, if_neg (Ne.symm hnew.1), ih hnew.2]
      rfl

/-! ### Values behind a text -/

/-- What it means that a value is read back **behind any text**: where the parser awaits a
value, it has the value complete behind the written form. -/
def ReadsBack (j : Json) : Prop :=
  ∀ (out : String) (p : Progress) (stack : List Container), ReadsBetween out p →
    p.Awaits stack → Reads (print out j) (Progress.complete stack j)

theorem readsBack_word {j : Json} (word : String) (hprint : ∀ out, print out j = out ++ word)
    (hword : ofWord? word.toList = some (.value j))
    (hchars : word.toList.all isWordChar = true) (hne : word.toList ≠ []) : ReadsBack j := by
  intro out p stack hout hawaits
  rw [hprint]
  exact hout.word hword (List.all_eq_true.mp hchars) hne (hawaits.step? nofun)

theorem readsBack_int {n : Int} (hn : FitsWord n) : ReadsBack (.int n) := by
  refine readsBack_word (toString n) (fun out => by rw [print]) (ofWord?_toString hn)
    (List.all_eq_true.mpr fun c hc => isWordChar_of_mem_toString_int hc) ?_
  intro hnil
  have hparse := Number.parse?_toString hn
  rw [hnil] at hparse
  simp [Number.parse?, Number.unsigned?, Number.spanDigits, Number.isWhole] at hparse

theorem readsBack_str (value : String) : ReadsBack (.str value) := by
  intro out p stack hout hawaits
  rw [print]
  exact (hout.string value (hawaits.step? nofun)).reads

/-- Behind some elements of an array, `printElements` puts more elements at its end. -/
theorem reads_printElements {elements : List Json} (hback : ∀ j ∈ elements, ReadsBack j)
    {out : String} {done : List Json} {stack : List Container}
    (hout : Reads out { stack := .array done :: stack, expects := .separator }) :
    Reads (printElements out false elements)
      { stack := .array (elements.reverse ++ done) :: stack, expects := .separator } := by
  induction elements generalizing out done with
  | nil => rw [printElements]; exact hout
  | cons j js ih =>
      have hcomma : ReadsBetween (out.push ',') { stack := .array done :: stack } :=
        hout.punctuation (by decide) (fun _ => rfl) rfl
      have hj := hback j List.mem_cons_self _ _ _ hcomma (.value _)
      have hjs := ih (fun i hi => hback i (List.mem_cons_of_mem j hi)) hj
      rw [printElements, if_neg (by decide), List.reverse_cons, List.append_assoc]
      exact hjs

theorem readsBack_arr {elements : List Json} (hback : ∀ j ∈ elements, ReadsBack j) :
    ReadsBack (.arr elements) := by
  intro out p stack hout hawaits
  have hopen : ReadsBetween (out.push '[')
      { stack := .array [] :: stack, expects := .firstElement } :=
    hout.reads.punctuation (by decide) (fun _ => rfl) (hawaits.step? nofun)
  rw [print]
  -- the first element is awaited in a state of its own, in which the array may also end
  cases elements with
  | nil =>
      rw [printElements]
      exact (hopen.reads.punctuation (by decide) (fun _ => rfl) rfl).reads
  | cons j js =>
      have hj := hback j List.mem_cons_self _ _ _ hopen (.firstElement _)
      have hjs := reads_printElements (fun i hi => hback i (List.mem_cons_of_mem j hi)) hj
      have hclose : ReadsBetween
          ((printElements (print (out.push '[') j) false js).push ']') _ :=
        hjs.punctuation (by decide) (fun _ => rfl) rfl
      rw [printElements, if_pos rfl]
      simpa using hclose.reads

/-- Behind the key of a member, the member is put at the end of the object. -/
theorem reads_member {out key : String} {value : Json} {p : Progress}
    {done : List (String × Json)} {stack : List Container} (hvalue : ReadsBack value)
    (hnew : key ∉ done.map Prod.fst) (hout : ReadsBetween out p)
    (hkey : p.step? (.value (.str key)) =
      some { stack := stack, expects := .colon done key }) :
    Reads (print ((printString out key).push ':') value)
      { stack := .object (done ++ [(key, value)]) key :: stack, expects := .separator } := by
  have hname := (hout.string key hkey).reads
  have hcolon : ReadsBetween ((printString out key).push ':')
      { stack := .object done key :: stack } :=
    hname.punctuation (by decide) (fun _ => rfl) rfl
  have hread := hvalue _ _ _ hcolon (.value _)
  rwa [Progress.complete, setMember_of_notMem value hnew] at hread

/-- Behind some members of an object, `printMembers` puts more members with new keys at its
end. -/
theorem reads_printMembers {members : List (String × Json)}
    (hback : ∀ m ∈ members, ReadsBack m.2) {out key : String} {done : List (String × Json)}
    {stack : List Container} (hnodup : ((done ++ members).map Prod.fst).Nodup)
    (hout : Reads out { stack := .object done key :: stack, expects := .separator }) :
    ∃ last, Reads (printMembers out false members)
      { stack := .object (done ++ members) last :: stack, expects := .separator } := by
  induction members generalizing out key done with
  | nil => exact ⟨key, by rw [printMembers, List.append_nil]; exact hout⟩
  | cons m ms ih =>
      -- the key is not among those before it, so that its member comes last
      obtain ⟨k, v⟩ := m
      have hcomma : ReadsBetween (out.push ',') { stack := stack, expects := .key done } :=
        hout.punctuation (by decide) (fun _ => rfl) rfl
      have hnew : k ∉ done.map Prod.fst := by
        rw [List.map_append, List.nodup_append] at hnodup
        exact fun hmem => hnodup.2.2 k hmem k (by simp) rfl
      have hm := reads_member (hback (k, v) List.mem_cons_self) hnew hcomma rfl
      rw [List.append_cons] at hnodup ⊢
      rw [printMembers, if_neg (by decide)]
      exact ih (fun i hi => hback i (List.mem_cons_of_mem _ hi)) hnodup hm

theorem readsBack_obj {members : List (String × Json)}
    (hnodup : (members.map Prod.fst).Nodup) (hback : ∀ m ∈ members, ReadsBack m.2) :
    ReadsBack (.obj members) := by
  intro out p stack hout hawaits
  have hopen : ReadsBetween (out.push '\x7b') { stack := stack, expects := .firstKey } :=
    hout.reads.punctuation (by decide) (fun _ => rfl) (hawaits.step? nofun)
  rw [print]
  cases members with
  | nil =>
      rw [printMembers]
      exact (hopen.reads.punctuation (by decide) (fun _ => rfl) rfl).reads
  | cons m ms =>
      obtain ⟨k, v⟩ := m
      have hkey : Progress.step? { stack := stack, expects := .firstKey } (.value (.str k)) =
          some { stack := stack, expects := .colon [] k } := rfl
      have hm := reads_member (hback (k, v) List.mem_cons_self) (by simp) hopen hkey
      obtain ⟨last, hms⟩ :=
        reads_printMembers (fun i hi => hback i (List.mem_cons_of_mem _ hi)) hnodup hm
      rw [printMembers, if_pos rfl]
      exact (hms.punctuation (by decide) (fun _ => rfl) rfl).reads

/-- A value for which `IsExact` holds is read back **behind any text** that awaits one. -/
theorem IsExact.readsBack {j : Json} (h : IsExact j) : ReadsBack j := by
  induction h with
  | null => exact readsBack_word "null" (fun out => by rw [print]) rfl rfl (by decide)
  | bool value =>
      cases value with
      | true => exact readsBack_word "true" (fun out => by rw [print]) rfl rfl (by decide)
      | false => exact readsBack_word "false" (fun out => by rw [print]) rfl rfl (by decide)
  | int fits => exact readsBack_int fits
  | str value => exact readsBack_str value
  | arr _ ih => exact readsBack_arr ih
  | obj distinct _ ih => exact readsBack_obj distinct ih

/-- The text of such a value is **read as that value** by `parse?`. -/
theorem IsExact.parse?_text {j : Json} (h : IsExact j) : Json.parse? j.text = some j :=
  (h.readsBack "" {} [] readsBetween_empty (.value [])).parse?

end Waveform.Json
