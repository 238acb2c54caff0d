import CaseGen.Proofs.Command.History

/-! # How a run reports what it came to

    A run gives an exit code and reports a failure on one line.  A producer
    may give up with any value, and then the line holds the text of that
    value.  Some values have no text, and a run that has one of them to
    report ends without an exit code.

    * `Value.Textless`          — the values without a text
    * `text?_eq_none_iff`       — these and no others have none
    * `message?_eq_none_iff`    — so only a bare value can be left unreported
    * `carryOut_err`            — nothing is printed on a failure before the report
    * `run_of_message`          — the report of a failure that has a message
    * `reports_unless_textless` — all runs -/

namespace CaseGen

/-! ## Section 1: Values without a text -/

namespace Value

/-- The value has no text: it is an object with a field of its own in the place of the way to write
    it, or a list that holds such an object at any depth. -/
inductive Textless : Value → Prop
  | object {fields : List (String × Value)} {v : Value} (own : ("toString", v) ∈ fields) :
    Textless (.obj fields)
  | item {items : List Value} {v : Value} (mem : v ∈ items) (textless : Textless v) :
    Textless (.arr items)

theorem textless_arr_iff {items : List Value} :
    Textless (.arr items) ↔ ∃ v ∈ items, Textless v := by
  constructor
  · intro h
    cases h with
    | item mem textless => exact ⟨_, mem, textless⟩
  · intro h
    obtain ⟨v, mem, textless⟩ := h
    exact .item mem textless

theorem textless_obj_iff {fields : List (String × Value)} :
    Textless (.obj fields) ↔ (fields.lookup "toString").isSome := by
  rw [← Option.ne_none_iff_isSome, Ne, List.lookup_eq_none_iff]
  constructor
  · intro h others
    cases h with
    | object own =>
      have other := others _ own
      simp at other
  · intro own
    by_contra textless
    apply own
    intro field mem
    rw [bne_iff_ne]
    intro same
    apply textless
    obtain ⟨name, v⟩ := field
    cases same
    exact .object mem

/-- The scalars and null have a text. -/
theorem not_textless {v : Value} (list : ∀ items, v ≠ .arr items) (object : ∀ fields, v ≠ .obj fields) :
    ¬ v.Textless := by
  intro h
  cases h with
  | object => exact object _ rfl
  | item => exact list _ rfl

mutual

/-- A value has no text exactly if such an object stands in it with nothing but lists around it. -/
theorem text?_eq_none_iff : (v : Value) → (v.text? = none ↔ v.Textless)
  | null => iff_of_false nofun (not_textless nofun nofun)
  | bool _ => iff_of_false nofun (not_textless nofun nofun)
  | num _ _ => iff_of_false nofun (not_textless nofun nofun)
  | str _ => iff_of_false nofun (not_textless nofun nofun)
  | arr items => by
    rw [text?, Option.map_eq_none_iff, itemTexts?_eq_none_iff items, textless_arr_iff]
  | obj fields => by
    rw [text?, textless_obj_iff]
    split
    · next own => exact iff_of_true rfl own
    · next none => exact iff_of_false nofun none

theorem itemTexts?_eq_none_iff :
    (items : List Value) → (itemTexts? items = none ↔ ∃ v ∈ items, v.Textless)
  | [] => by simp [itemTexts?]
  | v :: rest => by
    rw [List.exists_mem_cons_iff, ← itemTexts?_eq_none_iff rest, ← text?_eq_none_iff v]
    by_cases null : v = .null
    · -- null is empty in a list, and it has a text outside of one
      subst null
      rw [itemTexts?, Option.map_eq_none_iff]
      exact (or_iff_right nofun).symm
    · rw [itemTexts?]
      · cases v.text? with
        | none => exact iff_of_true rfl (.inl rfl)
        | some s =>
          rw [Option.bind_some, Option.map_eq_none_iff]
          exact (or_iff_right nofun).symm
      · exact null

end

end Value

/-- Every failure has a message but a bare value without a text. -/
theorem Failure.message?_eq_none_iff {f : Failure} :
    f.message? = none ↔ ∃ v, f = .thrown v ∧ v.Textless := by
  constructor
  · intro none
    cases f with
    | thrown v => exact ⟨v, rfl, (Value.text?_eq_none_iff v).mp none⟩
    | _ => cases none
  · intro h
    obtain ⟨v, rfl, textless⟩ := h
    exact (Value.text?_eq_none_iff v).mpr textless

/-! ## Section 2: Before the report -/

namespace Command.Job

variable {α : Type} {j : Job α} {args : List String} {l : CommandLine} {s s' : Session} {f : Failure}

/-- A command line that is not read ends the run with the exit code of the stop. -/
theorem run_of_stop {stop : UsageStop} (reads : j.read args = .error stop) :
    (j.carryOut args s).1 = .error (.usage stop) ∧
      j.run args s = (.ok stop.exitCode, (j.carryOut args s).2) := by
  simp only [run, carryOut, reads, and_self]

/-- Only a command line that is not read ends with a stop. -/
theorem read_of_stop {stop : UsageStop} (ends : (j.carryOut args s).1 = .error (.usage stop)) :
    j.read args = .error stop := by
  cases reads : j.read args with
  | error stop' =>
    rw [(run_of_stop reads).1] at ends
    cases ends
    rfl
  | ok l =>
    obtain ⟨result, v, v', t, -, accepted, -, carried, -⟩ :=
      carryOut_alike reads reads ⟨rfl, rfl, rfl⟩ (.refl j.Makes s.workspace)
    rw [carried] at ends
    exact absurd ends (accepted stop)

/-- Before the report nothing is printed on the error output, where the report will be shown. -/
theorem carryOut_err (accepted : ∀ stop, (j.carryOut args s).1 ≠ .error (.usage stop)) :
    (j.carryOut args s).2.console.err = s.console.err ∧
      (j.carryOut args s).2.console.level.Shows .error := by
  cases reads : j.read args with
  | error stop => exact absurd (run_of_stop reads).1 (accepted stop)
  | ok l =>
    obtain ⟨result, v, v', t, -, -, -, carried, -⟩ :=
      carryOut_alike reads reads ⟨rfl, rfl, rfl⟩ (.refl j.Makes s.workspace)
    rw [carried]
    exact ⟨rfl, shows_error l.settings⟩

theorem carryOut_err_of_failure (fails : (j.carryOut args s).1 = .error (.failure f)) :
    (j.carryOut args s).2.console.err = s.console.err ∧
      (j.carryOut args s).2.console.level.Shows .error := by
  apply carryOut_err
  intro stop ends
  cases fails.symm.trans ends

/-! ## Section 3: The report -/

theorem run_of_textless {v : Value} (fails : (j.carryOut args s).1 = .error (.failure (.thrown v)))
    (textless : v.Textless) : j.run args s = (.error .noText, (j.carryOut args s).2) := by
  have carried : j.carryOut args s = (.error (.failure (.thrown v)), (j.carryOut args s).2) :=
    Prod.ext fails rfl
  have none : (Failure.thrown v).message? = none :=
    Failure.message?_eq_none_iff.mpr ⟨v, rfl, textless⟩
  unfold run
  rw [carried]
  simp only [none]

/-- The line with the message is shown at every level that a command line can set. -/
theorem run_of_message {m : String} (fails : (j.carryOut args s).1 = .error (.failure f))
    (message : f.message? = some m) : j.run args s =
      (.ok 1, ⟨(j.carryOut args s).2.workspace, (j.carryOut args s).2.console.printErrorLine
        ((j.carryOut args s).2.console.painted .red (Failure.errorLine m))⟩) := by
  obtain ⟨-, shown⟩ := carryOut_err_of_failure fails
  have carried : j.carryOut args s = (.error (.failure f), (j.carryOut args s).2) :=
    Prod.ext fails rfl
  rw [run_of_failure carried message, Console.error, if_pos shown]

/-- A run gives an exit code unless it has a value without a text to report. -/
theorem exists_code_iff : (∃ code, (j.run args s).1 = .ok code) ↔
    ¬ ∃ v, (j.carryOut args s).1 = .error (.failure (.thrown v)) ∧ v.Textless := by
  constructor
  · intro h thrown
    obtain ⟨code, ran⟩ := h
    obtain ⟨v, fails, textless⟩ := thrown
    rw [run_of_textless fails textless] at ran
    cases ran
  · intro hasText
    cases ended : (j.carryOut args s).1 with
    | ok _ => exact ⟨0, by rw [run_of_ok (Prod.ext ended rfl)]⟩
    | error why =>
      cases why with
      | usage stop => exact ⟨stop.exitCode, by rw [(run_of_stop (read_of_stop ended)).2]⟩
      | failure f =>
        have reported : f.message? ≠ none := by
          intro none
          obtain ⟨v, rfl, textless⟩ := Failure.message?_eq_none_iff.mp none
          exact hasText ⟨v, ended, textless⟩
        obtain ⟨m, message⟩ := Option.ne_none_iff_exists'.mp reported
        exact ⟨1, by rw [run_of_message ended message]⟩

/-! ## Section 4: All runs -/

/-- A run gives an exit code unless it has a value without a text to report.  The code is 0 if the
    command line is carried out and that of the stop if it is not read.  Otherwise something failed:
    then the code is 1, and one line is printed on the error output, where nothing was printed
    before. -/
theorem reports_unless_textless (j : Job α) (args : List String) (s : Session) :
    let ended := j.carryOut args s
    let ran := j.run args s
    ((∃ code, ran.1 = .ok code) ↔
      ¬ ∃ v, ended.1 = .error (.failure (.thrown v)) ∧ v.Textless) ∧
    -- the command line is carried out
    (ended.1 = .ok () → ran = (.ok 0, ended.2) ∧ ended.2.console.err = s.console.err) ∧
    -- it is not read
    (∀ stop, ended.1 = .error (.usage stop) →
      j.read args = .error stop ∧ ran = (.ok stop.exitCode, ended.2)) ∧
    -- something failed
    ∀ f, ended.1 = .error (.failure f) →
      ended.2.console.err = s.console.err ∧
      (∀ v, f = .thrown v → v.Textless → ran = (.error .noText, ended.2)) ∧
      ((¬ ∃ v, f = .thrown v ∧ v.Textless) →
        ∃ m, f.message? = some m ∧ ran = (.ok 1, ⟨ended.2.workspace,
          ended.2.console.printErrorLine (ended.2.console.painted .red (Failure.errorLine m))⟩)) := by
  intro ended ran
  refine ⟨exists_code_iff, ?_, ?_, ?_⟩
  · intro done
    constructor
    · exact run_of_ok (Prod.ext done rfl)
    · have accepted : ∀ stop, ended.1 ≠ .error (.usage stop) := by
        intro stop ends
        cases done.symm.trans ends
      exact (carryOut_err accepted).1
  · intro stop ends
    have reads := read_of_stop ends
    exact ⟨reads, (run_of_stop reads).2⟩
  · intro f fails
    refine ⟨(carryOut_err_of_failure fails).1, ?_, ?_⟩
    · intro v thrown textless
      subst thrown
      exact run_of_textless fails textless
    · intro hasText
      obtain ⟨m, message⟩ :=
        Option.ne_none_iff_exists'.mp (mt Failure.message?_eq_none_iff.mp hasText)
      exact ⟨m, message, run_of_message fails message⟩

/-- A program whose only target gives up with a value. -/
def givingUp (v : Value) : Job Unit where
  program := .default
  table := [("t", fun _ => { steps := [.fail (.thrown v)], eager := true })]
  context := ()

theorem carryOut_givingUp (v : Value) :
    (givingUp v).carryOut ["t"] {} = (.error (.failure (.thrown v)), {}) := by
  rfl

/-- A field in the place of the way to write an object does no harm inside of another object. -/
theorem reports_unless_textless_nested :
    let v : Value := .arr [.arr [.num 1 0, .null], .obj [("a", .obj [("toString", .null)])]]
    ((givingUp v).carryOut ["t"] {}).1 = .error (.failure (.thrown v)) ∧
      (¬ ∃ u, Failure.thrown v = .thrown u ∧ u.Textless) ∧
      (givingUp v).run ["t"] {} =
        (.ok 1, { console := { err := "Error: 1,,[object Object]\n" } }) := by
  intro v
  have ended := carryOut_givingUp v
  have text : (Failure.thrown v).message? = some "1,,[object Object]" := by decide +kernel
  have hasText : ¬ ∃ u, Failure.thrown v = .thrown u ∧ u.Textless := by
    rw [← Failure.message?_eq_none_iff, text]
    nofun
  obtain ⟨-, -, -, failed⟩ := reports_unless_textless (givingUp v) ["t"] {}
  rw [ended] at failed
  obtain ⟨-, -, reported⟩ := failed _ rfl
  obtain ⟨m, message, ran⟩ := reported hasText
  cases text.symm.trans message
  exact ⟨by rw [ended], hasText, ran⟩

/-- A value without a text is thrown: the run has no exit code, and nothing is reported. -/
theorem unreported_without_text :
    (givingUp (.obj [("toString", .num 1 0)])).run ["t"] {} = (.error .noText, {}) :=
  run_of_textless (congrArg Prod.fst (carryOut_givingUp _)) (.object List.mem_cons_self)

end Command.Job

end CaseGen
