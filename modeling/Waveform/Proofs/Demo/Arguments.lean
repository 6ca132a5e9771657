import Waveform.Demo.Arguments

/-!
# What Arguments Spell

Arguments are read from the left, and every option is entered right away into what was given so
far. The two can be taken apart: which options some arguments spell does not depend on what was
given before (`Arguments.Spells`), and entering them one after the other needs no text
(`Given.addAll?`). Reading does both (`Arguments.parseFrom_eq_report_iff`).

So a flag in front of other arguments sets the flag and makes no other difference, as long as it
is not given again (`Arguments.parse_flag_cons`).
-/

namespace Waveform.Demo

/-- What some arguments ask for: a `Setting` of an option, or a flag. -/
inductive Item where
  | setting (s : Setting)
  | flag (flag : Flag)

namespace Given

/-- Enters an `Item`, unless it was given before and may not be given again. -/
def add? (g : Given) : Item → Option Given
  | .setting s => g.set? s
  | .flag flag => g.setFlag? flag

/-- Enters items one after the other by `add?`. -/
def addAll? (g : Given) : List Item → Option Given
  | [] => some g
  | item :: items => (g.add? item).bind fun g' => g'.addAll? items

end Given

namespace Arguments

variable {g g' : Given} {a : Arguments} {argument : String} {rest rest' : List String}
  {flag : Flag} {items : List Item}

/-! ### What is spelled -/

/-- The **items** that some arguments spell, argument by argument as `front` says. Arguments that
are wrong, or that ask for a text, spell nothing. -/
inductive Spells : List String → List Item → Prop
  | nil : Spells [] []
  | finish {argument : String} : front argument = .finish → Spells [argument] []
  | attached {argument : String} {rest : List String} {option : ValueOption}
      {value : List Char} {s : Setting} {items : List Item} :
      front argument = .value option (some value) → setting? value option = some s →
      Spells rest items → Spells (argument :: rest) (.setting s :: items)
  | detached {argument value : String} {rest : List String} {option : ValueOption}
      {s : Setting} {items : List Item} :
      front argument = .value option none → isOption value = false →
      setting? value.toList option = some s → Spells rest items →
      Spells (argument :: value :: rest) (.setting s :: items)
  | flag {argument : String} {rest : List String} {flag : Flag} {items : List Item} :
      front argument = .flag flag → Spells rest items →
      Spells (argument :: rest) (.flag flag :: items)

/-- Items that `Spells` allows are entered. -/
theorem parseFrom_of_spells {arguments : List String} (hspells : Spells arguments items)
    (hadd : g.addAll? items = some g') : parseFrom g arguments = .report g'.arguments := by
  induction hspells generalizing g with
  | nil =>
      obtain rfl := Option.some.inj hadd
      rw [parseFrom]
  | finish hfront =>
      obtain rfl := Option.some.inj hadd
      rw [parseFrom, hfront]
      rfl
  | @attached _ _ option value _ _ hfront hsetting _ ih =>
      obtain ⟨next, hnext, hrest⟩ := Option.bind_eq_some_iff.mp hadd
      have hassign : assign? g option value = some next := by rw [assign?, hsetting]; exact hnext
      rw [parseFrom, hfront]
      simp only [hassign]
      exact ih hrest
  | @detached _ value _ option _ _ hfront hvalue hsetting _ ih =>
      obtain ⟨next, hnext, hrest⟩ := Option.bind_eq_some_iff.mp hadd
      have hassign : assign? g option value.toList = some next := by
        rw [assign?, hsetting]
        exact hnext
      rw [parseFrom, hfront]
      simp only [hvalue, hassign]
      exact ih hrest
  | @flag _ _ flag _ hfront _ ih =>
      obtain ⟨next, hnext, hrest⟩ := Option.bind_eq_some_iff.mp hadd
      have hset : g.setFlag? flag = some next := hnext
      rw [parseFrom, hfront]
      simp only [hset]
      exact ih hrest

/-- Arguments that `parseFrom` reads spell something, and that was entered. -/
theorem exists_spells_of_parseFrom {arguments : List String}
    (hparse : parseFrom g arguments = .report a) :
    ∃ items g', Spells arguments items ∧ g.addAll? items = some g' ∧ g'.arguments = a := by
  fun_induction parseFrom g arguments with
  | case1 g => exact ⟨[], g, .nil, rfl, Request.report.inj hparse⟩
  | case2 g argument rest hfront hempty =>
      obtain rfl := List.isEmpty_iff.mp hempty
      exact ⟨[], g, .finish hfront, rfl, Request.report.inj hparse⟩
  | case7 g argument rest flag hfront next hset ih =>
      obtain ⟨items, g', hspells, hadd, ha⟩ := ih hparse
      exact ⟨.flag flag :: items, g', .flag hfront hspells,
        Option.bind_eq_some_iff.mpr ⟨next, hset, hadd⟩, ha⟩
  | case9 g argument rest option value hfront next hassign ih =>
      obtain ⟨s, hsetting, hset⟩ := Option.bind_eq_some_iff.mp hassign
      obtain ⟨items, g', hspells, hadd, ha⟩ := ih hparse
      exact ⟨.setting s :: items, g', .attached hfront hsetting hspells,
        Option.bind_eq_some_iff.mpr ⟨next, hset, hadd⟩, ha⟩
  | case13 g argument option hfront value rest hvalue next hassign ih =>
      obtain ⟨s, hsetting, hset⟩ := Option.bind_eq_some_iff.mp hassign
      obtain ⟨items, g', hspells, hadd, ha⟩ := ih hparse
      exact ⟨.setting s :: items, g',
        .detached hfront (Bool.eq_false_iff.mpr hvalue) hsetting hspells,
        Option.bind_eq_some_iff.mpr ⟨next, hset, hadd⟩, ha⟩
  | case3 | case4 | case5 | case6 | case8 | case10 | case11 | case12 | case14 => contradiction

/-- **Reading** takes the items that the arguments spell, by `Spells`, and enters them. -/
theorem parseFrom_eq_report_iff {arguments : List String} :
    parseFrom g arguments = .report a ↔
      ∃ items g', Spells arguments items ∧ g.addAll? items = some g' ∧ g'.arguments = a := by
  refine ⟨exists_spells_of_parseFrom, ?_⟩
  rintro ⟨items, g', hspells, hadd, rfl⟩
  exact parseFrom_of_spells hspells hadd

end Arguments

/-! ### One more flag -/

namespace Given

/-- One flag more is given than before, and nothing else. -/
structure HasAlso (g g' : Given) (flag : Flag) : Prop where
  last?_eq : g'.last? = g.last?
  step?_eq : g'.step? = g.step?
  readings?_eq : g'.readings? = g.readings?
  mem_flags_iff : ∀ other, other ∈ g'.flags ↔ other = flag ∨ other ∈ g.flags

variable {g g' next : Given} {flag : Flag} {item : Item} {items : List Item}

theorem flags_of_set? {s : Setting} (hset : g.set? s = some next) : next.flags = g.flags := by
  cases s with
  | last time =>
      rw [set?, Option.ite_none_left_eq_some] at hset
      rw [← Option.some.inj hset.2]
  | step count =>
      rw [set?, Option.ite_none_left_eq_some] at hset
      rw [← Option.some.inj hset.2]
  | readings times => rw [← Option.some.inj hset]

theorem setFlag?_eq_some_iff :
    g.setFlag? flag = some next ↔ flag ∉ g.flags ∧ { g with flags := flag :: g.flags } = next := by
  rw [setFlag?, Option.ite_none_left_eq_some, List.contains_iff_mem, Option.some.injEq]

/-- Flags are never taken back. -/
theorem mem_flags_of_add? (hadd : g.add? item = some next) (hmem : flag ∈ g.flags) :
    flag ∈ next.flags := by
  cases item with
  | setting s => exact (flags_of_set? hadd).symm ▸ hmem
  | flag other =>
      obtain ⟨-, rfl⟩ := setFlag?_eq_some_iff.mp hadd
      exact List.mem_cons_of_mem other hmem

theorem mem_flags_of_addAll? (hadd : g.addAll? items = some next) (hmem : flag ∈ g.flags) :
    flag ∈ next.flags := by
  induction items generalizing g with
  | nil => exact Option.some.inj hadd ▸ hmem
  | cons item items ih =>
      obtain ⟨g', hfirst, hrest⟩ := Option.bind_eq_some_iff.mp hadd
      exact ih hrest (mem_flags_of_add? hfirst hmem)

/-- An option with a value can be set when one flag more was given. -/
theorem HasAlso.set? {s : Setting} (h : HasAlso g g' flag) (hset : g.set? s = some next) :
    ∃ next', g'.set? s = some next' ∧ HasAlso next next' flag := by
  obtain ⟨hlast, hstep, hreadings, hflags⟩ := h
  cases s with
  | last time =>
      rw [Given.set?, Option.ite_none_left_eq_some, ← hlast] at hset
      obtain ⟨hnew, hnext⟩ := hset
      obtain rfl := Option.some.inj hnext
      exact ⟨{ g' with last? := some time }, if_neg hnew, rfl, hstep, hreadings, hflags⟩
  | step count =>
      rw [Given.set?, Option.ite_none_left_eq_some, ← hstep] at hset
      obtain ⟨hnew, hnext⟩ := hset
      obtain rfl := Option.some.inj hnext
      exact ⟨{ g' with step? := some count }, if_neg hnew, hlast, rfl, hreadings, hflags⟩
  | readings times =>
      obtain rfl := Option.some.inj hset
      exact ⟨_, rfl, hlast, hstep, by rw [hreadings], hflags⟩

/-- By `setFlag?` another flag can be set as well. -/
theorem HasAlso.setFlag? {other : Flag} (h : HasAlso g g' flag)
    (hset : g.setFlag? other = some next) (hnot : flag ∉ next.flags) :
    ∃ next', g'.setFlag? other = some next' ∧ HasAlso next next' flag := by
  obtain ⟨hnew, rfl⟩ := setFlag?_eq_some_iff.mp hset
  rw [List.mem_cons, not_or] at hnot
  obtain ⟨hlast, hstep, hreadings, hflags⟩ := h
  have hnew' : other ∉ g'.flags := by
    rw [hflags, not_or]
    exact ⟨Ne.symm hnot.1, hnew⟩
  refine ⟨_, setFlag?_eq_some_iff.mpr ⟨hnew', rfl⟩, hlast, hstep, hreadings, fun third => ?_⟩
  rw [List.mem_cons, List.mem_cons, hflags]
  exact or_left_comm

/-- Whatever `addAll?` can enter can also be entered when one flag more was given, unless that
flag is among it. -/
theorem HasAlso.addAll? {last : Given} (h : HasAlso g g' flag)
    (hadd : g.addAll? items = some last) (hnot : flag ∉ last.flags) :
    ∃ last', g'.addAll? items = some last' ∧ HasAlso last last' flag := by
  induction items generalizing g g' with
  | nil => exact ⟨g', rfl, Option.some.inj hadd ▸ h⟩
  | cons item items ih =>
      obtain ⟨next, hfirst, hrest⟩ := Option.bind_eq_some_iff.mp hadd
      have hstep : ∃ next', g'.add? item = some next' ∧ HasAlso next next' flag := by
        cases item with
        | setting s => exact h.set? hfirst
        | flag other => exact h.setFlag? hfirst (mt (mem_flags_of_addAll? hrest) hnot)
      obtain ⟨next', hfirst', hnext⟩ := hstep
      obtain ⟨last', hrest', hlast⟩ := ih hnext hrest
      exact ⟨last', Option.bind_eq_some_iff.mpr ⟨next', hfirst', hrest'⟩, hlast⟩

end Given

namespace Arguments

variable {g g' : Given} {a : Arguments} {flag : Flag}

/-- The field of the `Arguments` for a flag. -/
def has (a : Arguments) : Flag → Bool
  | .changes => a.changes
  | .propagateUnknown => a.propagateUnknown
  | .singleThread => a.singleThread

/-- The `Arguments` with a flag. -/
def withFlag (a : Arguments) : Flag → Arguments
  | .changes => { a with changes := true }
  | .propagateUnknown => { a with propagateUnknown := true }
  | .singleThread => { a with singleThread := true }

theorem has_arguments (g : Given) (flag : Flag) :
    g.arguments.has flag = g.flags.contains flag := by
  cases flag with
  | changes | propagateUnknown | singleThread => rfl

theorem arguments_of_hasAlso (h : g.HasAlso g' flag) :
    g'.arguments = g.arguments.withFlag flag := by
  have hcontains : ∀ other,
      g'.flags.contains other = (other == flag || g.flags.contains other) := by
    intro other
    rw [Bool.eq_iff_iff, Bool.or_eq_true, List.contains_iff_mem, List.contains_iff_mem,
      beq_iff_eq, h.mem_flags_iff]
  rw [Given.arguments, h.last?_eq, h.step?_eq, h.readings?_eq, hcontains, hcontains, hcontains]
  cases flag with
  | changes | propagateUnknown | singleThread => rfl

/-- **A flag in front** of arguments that do not have it sets the flag by `withFlag`, and that is
all. -/
theorem parse_flag_cons {name : String} {arguments : List String}
    (hname : front name = .flag flag) (hparse : parse arguments = .report a)
    (hunset : a.has flag = false) : parse (name :: arguments) = .report (a.withFlag flag) := by
  obtain ⟨items, g, hspells, hadd, rfl⟩ := parseFrom_eq_report_iff.mp hparse
  rw [has_arguments, ← Bool.not_eq_true, List.contains_iff_mem] at hunset
  have hfirst : Given.HasAlso {} { flags := [flag] } flag :=
    ⟨rfl, rfl, rfl, fun _ => List.mem_cons⟩
  obtain ⟨g', hadd', h⟩ := hfirst.addAll? hadd hunset
  rw [← arguments_of_hasAlso h]
  exact parseFrom_eq_report_iff.mpr ⟨.flag flag :: items, g', .flag hname hspells, hadd', rfl⟩

end Arguments

end Waveform.Demo
