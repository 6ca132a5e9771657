import Waveform.Proofs.Recorder.Outline

/-!
# The First Signal Wins

A signal asks for one name or two when it is declared, and any of them may be in use. Plain
names can be spelled like full names, so that even a plain name and the full name of another
signal can collide. The rule is always the same: a name belongs to the signal that was
declared **first** among those that have it.

The table of names knows nothing of this rule, as it only keeps what was registered. The
invariant `Recorder.FirstWins` ties it to the signals: the owner of a name is where a search
through the signals, from the first one on, stops. Declarations preserve the invariant, as
a signal is added behind all others and takes only the names that have no owner
(`Recorder.firstWins_perform`), and no other call touches names at all.

An owner is never displaced (`Recorder.owner?_run`). So the owners that a declaration warns
about are those that the finished recording will return, which together with the invariant is
the main statement, `Recorder.lookup_finds_first`.
-/

namespace Waveform

/-! ### The names of a signal -/

namespace Signal

/-- The names that a signal **asks for**, in this order: a vector its full name and its plain
name, a scalar only the plain one. -/
def requestedNames (name : String) (msi lsi : Int32) : List String :=
  if msi = lsi then [name] else [s!"{name}[{msi.toInt}:{lsi.toInt}]", name]

/-- The signal **has** a name. -/
def HasName (s : Signal) (name : String) : Prop :=
  name ∈ requestedNames s.name s.msi s.lsi

instance (s : Signal) (name : String) : Decidable (s.HasName name) :=
  inferInstanceAs (Decidable (name ∈ requestedNames s.name s.msi s.lsi))

/-- The name of a vector is longer with its range than without. -/
theorem append_rangeText_ne (s : Signal) : s.name ++ s.rangeText ≠ s.name := by
  intro heq
  have hlength := congrArg String.length heq
  have hbracket : ("[" : String).length = 1 := rfl
  simp only [rangeText, String.length_append, toString, hbracket] at hlength
  omega

/-- A signal is found under the names that it asks for: `Signal.names` and `requestedNames` are
the same. -/
theorem names_eq (s : Signal) : s.names = requestedNames s.name s.msi s.lsi := by
  rw [names, fullName, requestedNames]
  by_cases hrange : s.msi = s.lsi
  · rw [if_pos (s.isScalar_iff.mpr hrange), if_pos rfl, if_pos hrange]
  · rw [if_neg (mt s.isScalar_iff.mp hrange), if_neg s.append_rangeText_ne, if_neg hrange]
    simp [rangeText, toString, String.append_assoc]

/-- A signal has two names, the full one and the plain one, and no other. -/
theorem hasName_iff {s : Signal} {name : String} :
    s.HasName name ↔ name = s.fullName ∨ name = s.name := by
  rw [HasName, ← names_eq, names]
  split
  · rename_i hsame
    rw [hsame, or_self, List.mem_singleton]
  · rw [List.mem_cons, List.mem_singleton]

/-- No signal asks for a name twice. -/
theorem nodup_names (s : Signal) : s.names.Nodup := by
  rw [names]
  split
  · exact List.pairwise_singleton _ _
  · rename_i hne
    simpa using hne

end Signal

/-! ### Registering several names -/

namespace NameTable

variable {t : NameTable} {id : SignalId} {name : String} {names : List String}

/-- The names in the table are those that have an owner. -/
theorem mem_names_iff : name ∈ t.names ↔ t.owner? name ≠ none := by
  constructor
  · intro hmem hnone
    exact notMem_of_owner? hnone hmem
  · intro howner
    refine Decidable.byContradiction fun hnotMem => howner ?_
    refine List.lookup_eq_none_iff.mpr fun entry hentry => bne_iff_ne.mpr ?_
    exact (ne_of_mem_of_not_mem (List.mem_map_of_mem hentry) hnotMem).symm

theorem registerAll_cons (t : NameTable) (id : SignalId) (name : String) (names : List String) :
    t.registerAll id (name :: names) =
      (((t.register id name).1.registerAll id names).1,
        ((t.owner? name).map fun owner => (name, owner)).toList ++
          ((t.register id name).1.registerAll id names).2) := by
  rw [← register_snd t id name, registerAll]
  obtain ⟨t', owner?⟩ := t.register id name
  cases owner? with
  | none => rfl
  | some owner => rfl

/-- The names given to `registerAll` have an owner from then on: the one they had before, or else
the signal. Every other name keeps what it had. -/
theorem owner?_registerAll (t : NameTable) (id : SignalId) (names : List String)
    (other : String) :
    (t.registerAll id names).1.owner? other =
      if other ∈ names then some ((t.owner? other).getD id) else t.owner? other := by
  induction names generalizing t with
  | nil => rfl
  | cons name names ih =>
      rw [registerAll_cons, ih, owner?_register]
      by_cases hname : other = name
      · subst hname
        simp
      · simp only [List.mem_cons, hname, if_false, false_or]

/-- What is registered for one name cannot be seen under another. -/
theorem owner?_register_of_notMem {other : String} (hname : name ∉ names)
    (hother : other ∈ names) : (t.register id name).1.owner? other = t.owner? other := by
  rw [owner?_register, if_neg (ne_of_mem_of_not_mem hother hname)]

/-- `registerAll` tells of **the names that are in use**, in the same order. -/
theorem map_fst_registerAll (hnodup : names.Nodup) :
    (t.registerAll id names).2.map Prod.fst =
      names.filter fun name => (t.owner? name).isSome := by
  induction names generalizing t with
  | nil => rfl
  | cons name names ih =>
      obtain ⟨hname, hnodup⟩ := List.nodup_cons.mp hnodup
      have hothers : names.filter (fun other => ((t.register id name).1.owner? other).isSome) =
          names.filter fun other => (t.owner? other).isSome :=
        List.filter_congr fun other hother => by rw [owner?_register_of_notMem hname hother]
      rw [registerAll_cons, List.map_append, ih hnodup, hothers, List.filter_cons]
      cases t.owner? name with
      | none => rfl
      | some owner => rfl

/-- Registering names tells **who owns them**. -/
theorem owner?_of_mem_registerAll (hnodup : names.Nodup) {owner : SignalId}
    (hmem : (name, owner) ∈ (t.registerAll id names).2) : t.owner? name = some owner := by
  induction names generalizing t with
  | nil => exact absurd hmem List.not_mem_nil
  | cons first names ih =>
      obtain ⟨hfirst, hnodup⟩ := List.nodup_cons.mp hnodup
      rw [registerAll_cons, List.mem_append, Option.mem_toList] at hmem
      rcases hmem with hmem | hmem
      · obtain ⟨owner', howner, heq⟩ := Option.map_eq_some_iff.mp hmem
        obtain ⟨rfl, rfl⟩ := Prod.mk.inj heq
        exact howner
      · have hname : name ∈ names := by
          have hmem' := List.mem_map_of_mem (f := Prod.fst) hmem
          rw [map_fst_registerAll hnodup] at hmem'
          exact (List.mem_filter.mp hmem').1
        rw [← owner?_register_of_notMem hfirst hname]
        exact ih hnodup hmem

end NameTable

namespace Recorder

variable {r : Recorder} {name : String} {owner : SignalId}

/-! ### The owner is the first -/

/-- Some signal has the name, as in `HasName`. -/
def isUsed (r : Recorder) (name : String) : Bool :=
  r.signals.any fun s => s.HasName name

/-- The **invariant of names**: the `owner?` of a name is the first signal that has it. -/
def FirstWins (r : Recorder) : Prop :=
  ∀ name, (r.names.owner? name).map SignalId.index =
    r.signals.findIdx? fun s => s.HasName name

theorem firstWins_new (settings : Settings) : (new settings).FirstWins :=
  fun _ => Array.findIdx?_empty.symm

/-- Changes are not looked at when names are searched. -/
theorem firstWins_outline : r.outline.FirstWins ↔ r.FirstWins := by
  refine forall_congr' fun name => ?_
  rw [outline, Array.findIdx?_map]
  exact Iff.rfl

/-- **A call preserves the invariant** `FirstWins`. -/
theorem firstWins_perform (h : r.FirstWins) (call : Call) : (r.perform call).1.FirstWins := by
  cases call with
  | declare name msi lsi =>
      rcases declare_cases r name msi lsi with ⟨-, hfull⟩ | ⟨id, hid, -, hr⟩
      · rw [perform, hfull]
        exact h
      intro other
      rw [perform, hr]
      simp only [NameTable.owner?_registerAll, Array.findIdx?_push, Signal.names_eq,
        decide_eq_true_eq, ← h other, ← hid]
      cases r.names.owner? other with
      | none =>
          -- the name is free, so the signal owns it if it asks for it
          rw [Option.map_none, Option.none_or]
          exact apply_ite (Option.map SignalId.index) _ _ _
      | some owner =>
          rw [Option.getD_some, ite_self]
          rfl
  | record id c => exact firstWins_outline.mp (outline_record r id c ▸ firstWins_outline.mpr h)
  | setTimescale timescale => exact h

theorem firstWins_run (h : r.FirstWins) (calls : List Call) : (r.run calls).1.FirstWins := by
  induction calls generalizing r with
  | nil => exact h
  | cons call calls ih => exact ih (firstWins_perform h call)

/-- The names in use are those that have an owner. -/
theorem isSome_owner? (h : r.FirstWins) (name : String) :
    (r.names.owner? name).isSome = r.isUsed name := by
  rw [isUsed, ← Array.findIdx?_isSome, ← h name, Option.isSome_map]

theorem owner?_eq_some_iff (h : r.FirstWins) :
    r.names.owner? name = some owner ↔
      (∃ s, r.signals[owner.index]? = some s ∧ s.HasName name) ∧
        ∀ i < owner.index, ∀ s, r.signals[i]? = some s → ¬s.HasName name := by
  have hindex : r.names.owner? name = some owner ↔
      (r.names.owner? name).map SignalId.index = some owner.index := by
    cases r.names.owner? name with
    | none => simp
    | some other => simp [SignalId.eq_iff]
  rw [hindex, h name, Array.findIdx?_eq_some_iff_getElem]
  constructor
  · rintro ⟨hlt, hname, hbefore⟩
    refine ⟨⟨_, Array.getElem?_eq_getElem hlt, of_decide_eq_true hname⟩, ?_⟩
    intro i hi s hs hsame
    obtain ⟨hi', rfl⟩ := Array.getElem?_eq_some_iff.mp hs
    exact hbefore i hi (decide_eq_true hsame)
  · rintro ⟨⟨s, hs, hname⟩, hbefore⟩
    obtain ⟨hlt, rfl⟩ := Array.getElem?_eq_some_iff.mp hs
    refine ⟨hlt, decide_eq_true hname, fun i hi hsame => ?_⟩
    have hs := Array.getElem?_eq_getElem (Nat.lt_trans hi hlt)
    exact hbefore i hi _ hs (of_decide_eq_true hsame)

theorem owner?_eq_none_iff (h : r.FirstWins) :
    r.names.owner? name = none ↔ ∀ s ∈ r.signals, ¬s.HasName name := by
  rw [← Option.map_eq_none_iff, h name, Array.findIdx?_eq_none_iff]
  simp only [decide_eq_false_iff_not]

/-- The table has the names of the signals, and no others. -/
theorem mem_names_iff (h : r.FirstWins) :
    name ∈ r.names.names ↔ ∃ s ∈ r.signals, s.HasName name := by
  rw [NameTable.mem_names_iff, ne_eq, owner?_eq_none_iff h]
  simp

/-! ### Owners stay -/

/-- A call displaces no `owner?` of a name. -/
theorem owner?_perform (howner : r.names.owner? name = some owner) (call : Call) :
    (r.perform call).1.names.owner? name = some owner := by
  cases call with
  | declare new msi lsi =>
      rcases declare_cases r new msi lsi with ⟨-, hfull⟩ | ⟨id, -, -, hr⟩
      · rw [perform, hfull]
        exact howner
      · rw [perform, hr, NameTable.owner?_registerAll, howner, Option.getD_some, ite_self]
  | record id c =>
      have hnames := congrArg (fun outline => outline.names) (outline_record r id c)
      exact (congrArg (fun names => names.owner? name) hnames).trans howner
  | setTimescale timescale => exact howner

/-- **An owner is never displaced.** -/
theorem owner?_run (howner : r.names.owner? name = some owner) (calls : List Call) :
    (r.run calls).1.names.owner? name = some owner := by
  induction calls generalizing r with
  | nil => exact howner
  | cons call calls ih => exact ih (owner?_perform howner call)

/-! ### What declarations report -/

/-- A declaration reports those of its `requestedNames` that are in use, in this order, and the
owner of each. -/
theorem notices_declare (h : r.FirstWins) (name : String) (msi lsi : Int32) {id : SignalId}
    (hanswer : (r.declare name msi lsi).2.answer = .declared id) :
    ∃ taken : List (String × SignalId),
      taken.map Prod.fst = (Signal.requestedNames name msi lsi).filter r.isUsed ∧
        (∀ name owner, (name, owner) ∈ taken → r.names.owner? name = some owner) ∧
        (r.declare name msi lsi).2.notices =
          taken.map fun (name, owner) => .nameTaken name owner := by
  rw [declare] at hanswer ⊢
  cases hid : SignalId.ofIndex? r.signals.size with
  | none => simp [hid] at hanswer
  | some id =>
      have hnodup := Signal.nodup_names { name := name, msi := msi, lsi := lsi }
      refine ⟨_, ?_, fun _ _ hmem => NameTable.owner?_of_mem_registerAll hnodup hmem, rfl⟩
      rw [NameTable.map_fst_registerAll hnodup, Signal.names_eq]
      exact List.filter_congr fun name _ => isSome_owner? h name

/-- The line that warns of a name in use: that of `Notice.nameTaken`. -/
def takenLine (name : String) (owner : SignalId) : String :=
  s!"WARN {name} is already used by {owner.label}, lookup will return the first signal"

theorem line_nameTaken (name : String) (owner : SignalId) :
    (Notice.nameTaken name owner).line = takenLine name owner := by
  have hmessage : (Notice.nameTaken name owner).message = name ++ (" is already used by " ++
      (owner.label ++ ", lookup will return the first signal")) := by
    rw [← String.append_assoc, ← String.append_assoc]
    rfl
  have hline : (Notice.nameTaken name owner).line =
      "WARN " ++ (Notice.nameTaken name owner).message := rfl
  rw [hline, hmessage, ← String.append_assoc, ← String.append_assoc, ← String.append_assoc]
  rfl

/-- A call in the middle of a run is performed by the recorder that the calls before it lead
to, and the rest of the run starts from there. -/
theorem run_append_cons (r : Recorder) (before after : List Call) (call : Call) :
    (r.run (before ++ call :: after)).1 =
        (((r.run before).1.perform call).1.run after).1 ∧
      (r.run (before ++ call :: after)).2[before.length]? =
        some ((r.run before).1.perform call).2 := by
  have hlength := length_outcomes r before
  rw [run_append, run_cons]
  refine ⟨rfl, ?_⟩
  rw [List.getElem?_append_right (Nat.le_of_eq hlength), hlength, Nat.sub_self]
  rfl

/-- **Lookup finds the first signal, and warnings tell of collisions.** Take the recording of
any run. A name is found exactly when some signal has it, and then what is found is the first
of the signals that have it. Each declaration in the run that was not refused reported one
line for each name that it asked for and that was in use before, and no other line: for the
full name first and then for the plain one. The line names the signal that the recording
finds under that name. A declaration was refused exactly when no identity was left for
another signal (`SignalId.ofIndex?`), and then it reported nothing. -/
theorem lookup_finds_first (settings : Settings) (calls : List Call) :
    let recording := ((new settings).run calls).1.finish
    (∀ name id, recording.lookup? name = some id ↔
        (∃ s, recording.signals[id.index]? = some s ∧ s.HasName name) ∧
          ∀ i < id.index, ∀ s, recording.signals[i]? = some s → ¬s.HasName name) ∧
      (∀ name, recording.lookup? name = none ↔
        ∀ s ∈ recording.signals, ¬s.HasName name) ∧
      ∀ before name msi lsi after, calls = before ++ .declare name msi lsi :: after →
        ∃ outcome, ((new settings).run calls).2[before.length]? = some outcome ∧
          (SignalId.ofIndex? ((new settings).run before).1.signals.size = none ∧
              outcome = { answer := .full } ∨
            ∃ (id : SignalId) (taken : List (String × SignalId)),
              SignalId.ofIndex? ((new settings).run before).1.signals.size = some id ∧
              outcome.answer = .declared id ∧
              taken.map Prod.fst = (Signal.requestedNames name msi lsi).filter
                ((new settings).run before).1.isUsed ∧
              (∀ name owner, (name, owner) ∈ taken → recording.lookup? name = some owner) ∧
              outcome.notices.map Notice.line =
                taken.map fun (name, owner) => takenLine name owner) := by
  intro recording
  have hfirst : ((new settings).run calls).1.FirstWins :=
    firstWins_run (firstWins_new settings) calls
  refine ⟨fun name id => owner?_eq_some_iff hfirst, fun name => owner?_eq_none_iff hfirst, ?_⟩
  rintro before name msi lsi after rfl
  obtain ⟨hlast, houtcome⟩ := run_append_cons (new settings) before after (.declare name msi lsi)
  have hbefore := firstWins_run (firstWins_new settings) before
  refine ⟨_, houtcome, ?_⟩
  rcases declare_cases ((new settings).run before).1 name msi lsi with
    ⟨hnone, hfull⟩ | ⟨id, hid, hanswer, -⟩
  · exact Or.inl ⟨hnone, congrArg Prod.snd hfull⟩
  · obtain ⟨taken, hnames, howners, hnotices⟩ := notices_declare hbefore name msi lsi hanswer
    have hsome := SignalId.ofIndex?_eq_some_iff.mpr hid
    refine Or.inr ⟨id, taken, hsome, hanswer, hnames, fun name' owner hmem => ?_, ?_⟩
    · -- the owner was there before the call, and is still there at the end
      have howner := owner?_run
        (owner?_perform (howners name' owner hmem) (.declare name msi lsi)) after
      rw [← hlast] at howner
      exact howner
    · rw [perform, hnotices, List.map_map]
      exact List.map_congr_left fun entry _ => line_nameTaken entry.1 entry.2

/-- The scalar `a[1:0]`, and then a vector whose full name this is. -/
theorem lookup_finds_first_bracketed :
    let before : List Call := [.declare "a[1:0]" 0 0]
    let calls : List Call := before ++ .declare "a" 1 0 :: []
    let recording := ((new {}).run calls).1.finish
    recording.lookup? "a[1:0]" = some ⟨0, by decide⟩ ∧
      ∃ outcome, ((new {}).run calls).2[before.length]? = some outcome ∧
        outcome.notices.map Notice.line =
          ["WARN a[1:0] is already used by SignalRef(1), lookup will return the first signal"] := by
  intro before calls recording
  have hlaws := lookup_finds_first {} calls
  have hfound : recording.lookup? "a[1:0]" = some ⟨0, by decide⟩ := by decide
  obtain ⟨outcome, houtcome, hcases⟩ := hlaws.2.2 before "a" 1 0 [] rfl
  refine ⟨hfound, outcome, houtcome, ?_⟩
  rcases hcases with ⟨-, hfull⟩ | ⟨id, taken, -, -, hnames, howners, hlines⟩
  · rw [hfull] at houtcome
    exact absurd houtcome (by decide)
  · have hbracketed : taken.map Prod.fst = ["a[1:0]"] := hnames.trans (by cbv)
    obtain ⟨⟨name, owner⟩, rfl, rfl⟩ := List.map_eq_singleton_iff.mp hbracketed
    have howner := howners _ owner (List.mem_singleton_self _)
    obtain rfl := Option.some.inj (hfound.symm.trans howner)
    exact hlines.trans (by decide)

end Recorder

end Waveform
