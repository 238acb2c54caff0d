import CaseGen.Command.Run
import CaseGen.Proofs.Suite.Passes

/-! # Runs up to the first failure

    A command line that generates targets takes them in turn and ends at
    the first call that fails.  Its failure is the failure of the run, and
    nothing comes after it but one line that reports it.

    * `Console.debugAll`       — lines on progress, which only a verbose run shows
    * `Job.progress`           — the lines on targets that are written
    * `generateAll_append`     — targets that pass leave the others to be generated
    * `carryOut_of_passes`, `carryOut_of_fails` — a command line on either side of a failure
    * `stops_at_first_failure` — all command lines that generate -/

namespace CaseGen

/-! ## Section 1: Lines on progress -/

namespace Console

variable {c : Console} {messages : List String}

/-- The console after lines on progress. -/
def debugAll (c : Console) (messages : List String) : Console := messages.foldl debug c

theorem debugAll_concat (c : Console) (messages : List String) (m : String) :
    c.debugAll (messages ++ [m]) = (c.debugAll messages).debug m := by
  simp [debugAll]

/-- Lines on progress go to the output, each in its colour, or they are not shown at all. -/
theorem debugAll_eq (c : Console) (messages : List String) :
    c.debugAll messages = if c.level.Shows .debug then
      { c with out := c.out ++ String.join (messages.map fun m => c.painted .gray m ++ "\n") }
      else c := by
  induction messages generalizing c with
  | nil => simp [debugAll]
  | cons m rest ih =>
    rw [debugAll, List.foldl_cons]
    unfold debug
    by_cases shown : c.level.Shows .debug
    · rw [if_pos shown, if_pos shown]
      refine (ih _).trans ((if_pos shown).trans ?_)
      simp only [printLine, print, List.map_cons, String.join_cons, String.append_assoc]
      rfl
    · rw [if_neg shown, if_neg shown]
      exact (ih c).trans (if_neg shown)

end Console

namespace Command

variable {α : Type} {j : Job α} {suite : Suite α} {w v w' : Workspace} {c : Console}
  {names before after : List String} {counts : List Nat} {k : String} {f : Failure}

/-! ## Section 2: Targets in turn -/

namespace Job

/-- The lines on targets that are written. -/
def progress (suite : Suite α) (names : List String) (counts : List Nat) : List String :=
  (names.zip counts).flatMap fun e =>
    ["Generating " ++ suite.fileName e.1,
      "Wrote " ++ toString e.2 ++ " test cases to " ++ suite.fileName e.1]

/-- Targets that pass leave the others to be generated. -/
theorem generateAll_append (passes : suite.Passes j.context w names counts w') (c : Console)
    (rest : List String) :
    j.generateAll suite ⟨w, c⟩ (names ++ rest) =
      j.generateAll suite ⟨w', c.debugAll (progress suite names counts)⟩ rest := by
  induction passes generalizing c with
  | nil => rfl
  | cons first _ ih =>
    simp only [List.cons_append, generateAll, first]
    exact ih _

/-- A target that fails ends the run. -/
theorem generateAll_of_fails (fails : suite.generate w k j.context = (.error f, w')) (c : Console)
    (rest : List String) :
    j.generateAll suite ⟨w, c⟩ (k :: rest) =
      (.error (.failure f), ⟨w', c.debug ("Generating " ++ suite.fileName k)⟩) := by
  simp only [generateAll, fails]

/-- The line that names the selected targets. -/
def selectionLine (targets : List String) : String :=
  "Selected targets: " ++ selectionText targets

/-! ## Section 3: Command lines -/

variable {args : List String} {l : CommandLine} {s s' : Session} {stop : Stop}

/-- The targets that a command line selects. -/
def selected (suite : Suite α) (l : CommandLine) : List String :=
  resolveTargets l.operands suite.targetNames

theorem generate_of_ok (all : j.generateAll suite
      ⟨s.workspace, s.console.debug (selectionLine (selected suite l))⟩ (selected suite l) =
        (.ok (), s')) :
    j.generate suite l.operands s = (.ok (), ⟨s'.workspace,
      s'.console.success (summaryLine (selected suite l).length)⟩) := by
  unfold selectionLine selected at all
  simp only [generate, all, selected]

theorem generate_of_error (all : j.generateAll suite
      ⟨s.workspace, s.console.debug (selectionLine (selected suite l))⟩ (selected suite l) =
        (.error stop, s')) :
    j.generate suite l.operands s = (.error stop, s') := by
  unfold selectionLine selected at all
  simp only [generate, all]

/-- The console of a command line after lines on progress. -/
def consoleAfter (suite : Suite α) (l : CommandLine) (s : Session) (lines : List String) :
    Console :=
  (s.console.configure (some l.settings.level)).debugAll
    (selectionLine (selected suite l) :: lines)

theorem carryOut_eq (reads : j.read args = .ok l) (built : j.suite l.settings = .ok suite)
    (generates : l.settings.list = false) (s : Session) :
    j.carryOut args s = j.generate suite l.operands
      ⟨s.workspace, s.console.configure (some l.settings.level)⟩ := by
  simp only [carryOut, reads, built, generates, Bool.false_eq_true, if_false]

/-- If all targets pass, the run sums up. -/
theorem carryOut_of_passes (reads : j.read args = .ok l)
    (built : j.suite l.settings = .ok suite) (generates : l.settings.list = false)
    (passes : suite.Passes j.context s.workspace (selected suite l) counts w') :
    j.carryOut args s =
      (.ok (), ⟨w', (consoleAfter suite l s (progress suite (selected suite l) counts)).success
        (summaryLine (selected suite l).length)⟩) := by
  have all := generateAll_append passes
    ((s.console.configure (some l.settings.level)).debug (selectionLine (selected suite l))) []
  rw [List.append_nil, generateAll] at all
  rw [carryOut_eq reads built generates]
  exact generate_of_ok (s := ⟨s.workspace, s.console.configure (some l.settings.level)⟩) all

/-- The lines on targets that are written and on one that fails. -/
def progressTo (suite : Suite α) (names : List String) (counts : List Nat) (k : String) :
    List String :=
  progress suite names counts ++ ["Generating " ++ suite.fileName k]

/-- If a target fails, its failure ends the run. -/
theorem carryOut_of_fails (reads : j.read args = .ok l)
    (built : j.suite l.settings = .ok suite) (generates : l.settings.list = false)
    (targets : selected suite l = before ++ k :: after)
    (passes : suite.Passes j.context s.workspace before counts v)
    (fails : suite.generate v k j.context = (.error f, w')) :
    j.carryOut args s =
      (.error (.failure f), ⟨w', consoleAfter suite l s (progressTo suite before counts k)⟩) := by
  have all := generateAll_append passes
    ((s.console.configure (some l.settings.level)).debug (selectionLine (selected suite l)))
    (k :: after)
  rw [generateAll_of_fails fails, ← targets, ← Console.debugAll_concat] at all
  rw [carryOut_eq reads built generates]
  exact generate_of_error all

/-! ## Section 4: What is shown -/

/-- Failures are shown at every level that options choose. -/
theorem shows_error (st : Settings) : st.level.Shows .error := by
  unfold Settings.level
  split
  · decide
  · split <;> decide

/-- The summary is shown unless the run is quiet. -/
theorem shows_info_iff (st : Settings) : st.level.Shows .info ↔ st.quiet = false := by
  unfold Settings.level
  cases st.quiet <;> cases st.verbose <;> decide

/-- Progress is shown if the run is verbose and not quiet. -/
theorem shows_debug_iff (st : Settings) :
    st.level.Shows .debug ↔ st.verbose = true ∧ st.quiet = false := by
  unfold Settings.level
  cases st.quiet <;> cases st.verbose <;> decide

theorem level_consoleAfter (suite : Suite α) (l : CommandLine) (s : Session)
    (lines : List String) : (consoleAfter suite l s lines).level = l.settings.level := by
  rw [consoleAfter, Console.debugAll_eq]
  split <;> rfl

/-- Every failure but a bare value has a message. -/
theorem exists_message (h : ∀ x, f ≠ .thrown x) : ∃ m, f.message? = some m := by
  cases f with
  | thrown x => exact absurd rfl (h x)
  | _ => exact ⟨_, rfl⟩

/-! ## Section 5: All command lines that generate -/

/-- The suite of a command line has the targets of the job, and their producers have no part in how
    it is made. -/
theorem suite_table (built : j.suite l.settings = .ok suite) : suite.table = j.table ∧
    ∀ table, ({ j with table } : Job α).suite l.settings = .ok { suite with table } := by
  unfold Job.suite Suite.ofOptions at built ⊢
  cases resolved : Options.resolve (some (l.settings.options j.program)) with
  | error f =>
    rw [resolved] at built
    cases built
  | ok o =>
    rw [resolved] at built
    cases built
    refine ⟨rfl, fun table => ?_⟩
    show Except.map _ (Options.resolve (some (l.settings.options j.program))) = _
    rw [resolved]
    rfl

theorem run_of_ok (h : j.carryOut args s = (.ok (), s')) : j.run args s = (.ok 0, s') := by
  simp only [run, h]

theorem run_of_failure {m : String} (h : j.carryOut args s = (.error (.failure f), s'))
    (message : f.message? = some m) : j.run args s =
      (.ok 1, ⟨s'.workspace, s'.console.error (Failure.errorLine m)⟩) := by
  simp only [run, h, message]

/-- The producers of targets after the first failure have no part in the run. -/
theorem run_of_same_producers (reads : j.read args = .ok l)
    (built : j.suite l.settings = .ok suite) (generates : l.settings.list = false)
    (targets : selected suite l = before ++ k :: after)
    (passes : suite.Passes j.context s.workspace before counts v)
    (fails : suite.generate v k j.context = (.error f, w')) {table : TargetTable α}
    (keys : table.map Prod.fst = j.table.map Prod.fst)
    (producers : ∀ t ∈ before ++ [k], table.lookup t = j.table.lookup t) :
    ({ j with table } : Job α).run args s = j.run args s := by
  obtain ⟨own, others⟩ := suite_table built
  have same : Suite.SameUpTo (before ++ [k]) suite { suite with table } := by
    refine ⟨rfl, rfl, ?_⟩
    rw [own]
    exact producers
  have names : selected { suite with table } l = selected suite l := by
    simp only [selected, Suite.targetNames, keys, own]
  have passes' := (same.mono (List.subset_append_left _ _)).passes passes
  have fails' := same.generate (List.mem_append_right _ List.mem_cons_self) v j.context
  have stops := carryOut_of_fails reads built generates targets passes fails
  have stops' := carryOut_of_fails (j := { j with table }) reads (others table) generates
    (names.trans targets) passes' (fails'.trans fails)
  have console (lines : List String) :
      consoleAfter { suite with table } l s lines = consoleAfter suite l s lines := by
    simp only [consoleAfter, names]
  rw [console] at stops'
  rw [run, run, stops, stops']
  rfl

/-- A command line that generates takes its targets in turn.  If all of them pass, it sums up.
    Otherwise it ends at the first target that fails, with the workspace of that call and its
    failure, which is reported on one line.  No producer of a later target has a part in it. -/
theorem stops_at_first_failure (reads : j.read args = .ok l)
    (built : j.suite l.settings = .ok suite) (generates : l.settings.list = false) (s : Session) :
    -- all targets pass, or one is the first to fail
    ((∃ counts w', suite.Passes j.context s.workspace (selected suite l) counts w') ∨
      ∃ before k after counts v f w', selected suite l = before ++ k :: after ∧
        suite.Passes j.context s.workspace before counts v ∧
        suite.generate v k j.context = (.error f, w')) ∧
    -- all targets pass
    (∀ counts w', suite.Passes j.context s.workspace (selected suite l) counts w' →
      let c := consoleAfter suite l s (progress suite (selected suite l) counts)
      let n := (selected suite l).length
      let summary := if n = 1 then "Generated 1 data file"
        else "Generated " ++ toString n ++ " data files"
      j.run args s = (.ok 0, ⟨w', if l.settings.quiet then c
        else c.printLine (c.painted .green summary)⟩)) ∧
    -- one is the first to fail
    (∀ before k after counts v f w', selected suite l = before ++ k :: after →
      suite.Passes j.context s.workspace before counts v →
      suite.generate v k j.context = (.error f, w') →
      let c := consoleAfter suite l s (progressTo suite before counts k)
      j.carryOut args s = (.error (.failure f), ⟨w', c⟩) ∧
      (∀ m, f.message? = some m → j.run args s =
        (.ok 1, ⟨w', c.printErrorLine (c.painted .red ("Error: " ++ m))⟩)) ∧
      ((∀ x, f ≠ .thrown x) → ∃ m, f.message? = some m) ∧
      -- the producers
      (∀ table, table.map Prod.fst = j.table.map Prod.fst →
        (∀ t ∈ before ++ [k], table.lookup t = j.table.lookup t) →
        ({ j with table } : Job α).run args s = j.run args s) ∧
      (∀ mark, suite.Announces j.context mark →
        ∃ called, List.Sublist called (before ++ [k]) ∧ w'.trace.filter (suite.isMark mark) =
          s.workspace.trace.filter (suite.isMark mark) ++
            called.map fun t => Note.text (mark t))) ∧
    -- the lines on progress
    (∀ lines, consoleAfter suite l s lines =
      let c := s.console.configure (some l.settings.level)
      if l.settings.verbose = true ∧ l.settings.quiet = false then
        { c with out := c.out ++ String.join ((selectionLine (selected suite l) :: lines).map
          fun m => c.painted .gray m ++ "\n") }
      else c) := by
  refine ⟨Suite.passes_or_fails suite j.context s.workspace (selected suite l), ?_, ?_, ?_⟩
  · intro counts w' passes c n summary
    have level : c.level = l.settings.level := level_consoleAfter suite l s _
    rw [run_of_ok (carryOut_of_passes reads built generates passes), Console.success,
      summaryLine_ofNat]
    cases quiet : l.settings.quiet with
    | true =>
      have hidden : ¬ c.level.Shows .info := by
        rw [level, shows_info_iff, quiet]
        decide
      rw [if_neg hidden]
      rfl
    | false =>
      have shown : c.level.Shows .info := by rw [level, shows_info_iff, quiet]
      rw [if_pos shown]
      rfl
  · intro before k after counts v f w' targets passes fails c
    have stops := carryOut_of_fails reads built generates targets passes fails
    refine ⟨stops, ?_, exists_message, ?_, ?_⟩
    · intro m message
      have level : c.level = l.settings.level := level_consoleAfter suite l s _
      have shown : c.level.Shows .error := level ▸ shows_error l.settings
      rw [run_of_failure stops message, Console.error, if_pos shown]
      rfl
    · intro table keys producers
      exact run_of_same_producers reads built generates targets passes fails keys producers
    · intro mark announces
      obtain ⟨earlier, sub, trace⟩ := passes.called announces
      obtain ⟨last, once, trace'⟩ := Suite.generate_marks announces v k
      rw [fails] at trace'
      refine ⟨earlier ++ last, sub.append once, ?_⟩
      rw [trace', trace, List.map_append, List.append_assoc]
  · intro lines
    rw [consoleAfter, Console.debugAll_eq]
    simp only [Console.configure, Option.getD_some, shows_debug_iff]

/-- A quiet run over three targets, of which the second one fails, and a run over the other two,
    which sums up. -/
theorem stops_at_first_failure_of_three :
    let good : Unit → Production := fun _ => { steps := [] }
    let bad : Unit → Production := fun _ =>
      { steps := [.note "bad", .fail (.stopped "no")], eager := true }
    let j : Job Unit :=
      { program := .default, table := [("a", good), ("b", bad), ("c", good)], context := () }
    let suite : Suite Unit := ⟨"out", "testgen", j.table⟩
    (∃ v, suite.generate {} "a" () = (.ok 0, v) ∧
      j.run ["-qd", "out", "x/a.data", "-", "b", "c"] {} =
        (.ok 1, ⟨v.leave (.text "bad"), { level := .error, err := "Error: no\n" }⟩)) ∧
      ∃ v v', suite.generate {} "c" () = (.ok 0, v) ∧ suite.generate v "a" () = (.ok 0, v') ∧
        j.run ["-d", "out", "c", "a"] {} =
          (.ok 0, ⟨v', { out := "Generated 2 data files\n" }⟩) := by
  intro good bad j suite
  constructor
  · let l : CommandLine := { settings := { quiet := true, directory := some "out" }
                             operands := ["x/a.data", "-", "b", "c"] }
    have reads : j.read ["-qd", "out", "x/a.data", "-", "b", "c"] = .ok l := by decide +kernel
    have targets : selected suite l = ["a"] ++ "b" :: ["c"] := by decide +kernel
    have first := eq_of_toOption (x := suite.generate {} "a" ()) (a := 0) (by decide +kernel)
    generalize (suite.generate {} "a" ()).2 = v at first
    refine ⟨v, first, ?_⟩
    have fails : suite.generate v "b" () = (.error (.stopped "no"), v.leave (.text "bad")) := rfl
    obtain ⟨-, -, stops, progress⟩ := stops_at_first_failure reads rfl rfl {}
    obtain ⟨-, reported, -⟩ := stops ["a"] "b" ["c"] [0] v _ _ targets (.cons first .nil) fails
    have line : (Console.configure {} (some .error)).printErrorLine
        ((Console.configure {} (some .error)).painted .red ("Error: " ++ "no")) =
          { level := .error, err := "Error: no\n" } := by decide +kernel
    rw [← line, reported "no" rfl, progress]
    rfl
  · let l : CommandLine := { settings := { directory := some "out" }, operands := ["c", "a"] }
    have reads : j.read ["-d", "out", "c", "a"] = .ok l := by decide +kernel
    have targets : selected suite l = ["c", "a"] := by decide +kernel
    have first := eq_of_toOption (x := suite.generate {} "c" ()) (a := 0) (by decide +kernel)
    have second := eq_of_toOption (x := suite.generate (suite.generate {} "c" ()).2 "a" ()) (a := 0)
      (by decide +kernel)
    generalize (suite.generate {} "c" ()).2 = v at first second
    generalize (suite.generate v "a" ()).2 = v' at second
    refine ⟨v, v', first, second, ?_⟩
    have built : j.suite l.settings = .ok suite := rfl
    obtain ⟨-, passed, -, progress⟩ := stops_at_first_failure reads built rfl {}
    have run := passed [0, 0] v' (targets ▸ .cons first (.cons second .nil))
    have line : (Console.configure {} (some .info)).printLine
        ((Console.configure {} (some .info)).painted .green "Generated 2 data files") =
          { out := "Generated 2 data files\n" } := by decide +kernel
    dsimp only at run
    rw [progress, targets] at run
    rw [← line]
    exact run

end Job

end Command

end CaseGen
