import CaseGen.Proofs.Command.Listing
import CaseGen.Proofs.Suite.Agreement

/-! # What a run does not depend on

    A process may run programs many times.  The console keeps its level
    from run to run, but every command line that is read chooses its own
    before anything is printed.  So a run is the same whatever was run
    before it, as long as it finds the same files and, if its producers
    make instances, the same counts.

    Being verbose or quiet decides which messages are shown, and nothing
    else.

    * `Console.shows`     — text that a level and the colours decide
    * `Session.after`     — a process that has run programs
    * `Job.Makes`         — the classes that a job makes instances of
    * `carryOut_alike`    — two command lines that differ in their level
    * `independent_of_history` — pairs of runs after any histories -/

namespace CaseGen

/-! ## Section 1: Text that the level decides -/

/-- What messages come to at a chosen level, with or without colours. -/
def Transcript := Level → Bool → String

/-- Lines on progress. -/
def Transcript.progress (messages : List String) : Transcript := fun chosen coloured =>
  if chosen.Shows .debug then
    String.join (messages.map fun m => (if coloured then paint .gray m else m) ++ "\n")
  else ""

/-- Lines on progress, and a line that sums up. -/
def Transcript.summary (messages : List String) (m : String) : Transcript := fun chosen coloured =>
  progress messages chosen coloured ++
    if chosen.Shows .info then (if coloured then paint .green m else m) ++ "\n" else ""

namespace Console

variable {c : Console} {messages : List String} {m : String}

/-- The console after a transcript is printed at its level. -/
def shows (c : Console) (t : Transcript) : Console := { c with out := c.out ++ t c.level c.colours }

theorem debugAll_shows : c.debugAll messages = c.shows (.progress messages) := by
  rw [debugAll_eq, shows, Transcript.progress]
  split
  · rfl
  · simp

theorem success_shows :
    (c.shows (.progress messages)).success m = c.shows (.summary messages m) := by
  have level : (c.shows (.progress messages)).level = c.level := rfl
  rw [success, level]
  simp only [shows, Transcript.summary]
  split
  · simp only [printLine, print, painted, String.append_assoc]
  · simp

end Console

namespace Command

variable {α : Type} {j : Job α} {args args' : List String} {l l' : CommandLine} {s s' : Session}

/-! ## Section 2: Two command lines -/

namespace Job

/-- The producers of the job make instances of the class. -/
def Makes (j : Job α) (c : TargetClass) : Prop := ∃ k, j.table.Makes j.context k c

/-- The settings that decide what is done are the same, and so are the operands; the levels may
    differ. -/
structure Alike (l l' : CommandLine) : Prop where
  list : l'.settings.list = l.settings.list
  directory : l'.settings.directory = l.settings.directory
  operands : l'.operands = l.operands

/-- Two command lines that differ in their level end in the same way, leave workspaces that agree,
    and print the same text as far as their levels show it. -/
theorem carryOut_alike (reads : j.read args = .ok l)
    (reads' : j.read args' = .ok l') (alike : Alike l l')
    (agree : s.workspace.AgreeOn j.Makes s'.workspace) :
    ∃ result v v' t, v.AgreeOn j.Makes v' ∧ (∀ stop, result ≠ .error (.usage stop)) ∧
      (l.settings.list = false → ∀ coloured, t .error coloured = "") ∧
      j.carryOut args s =
        (result, ⟨v, (s.console.configure (some l.settings.level)).shows t⟩) ∧
      j.carryOut args' s' =
        (result, ⟨v', (s'.console.configure (some l'.settings.level)).shows t⟩) := by
  cases built : j.suite l.settings with
  | error f =>
    have built' := (suite_congr alike.directory).trans built
    refine ⟨.error (.failure f), s.workspace, s'.workspace, fun _ _ => "", agree, by simp,
      by simp, ?_, ?_⟩
    · simp [carryOut, reads, built, Console.shows]
    · simp [carryOut, reads', built', Console.shows]
  | ok suite =>
    have built' := (suite_congr alike.directory).trans built
    cases lists : l.settings.list with
    | true =>
      have lists' := alike.list.trans lists
      refine ⟨.ok (), s.workspace, s'.workspace,
        fun _ _ => String.join (suite.fileNames.map (· ++ "\n")), agree, by simp, by simp, ?_, ?_⟩
      · rw [carryOut_of_list reads built lists]
        rfl
      · rw [carryOut_of_list reads' built' lists']
        rfl
    | false =>
      have lists' := alike.list.trans lists
      have targets : selected suite l' = selected suite l := by simp only [selected, alike.operands]
      have covers (k : String) (c : TargetClass) (made : suite.table.Makes j.context k c) :
          j.Makes c := ⟨k, (suite_table built).1 ▸ made⟩
      let lines := selectionLine (selected suite l)
      rcases suite.passes_or_fails j.context s.workspace (selected suite l) with
        ⟨counts, v, passes⟩ | ⟨before, k, after, counts, u, f, v, split, passes, fails⟩
      · obtain ⟨v', passes', agree'⟩ := passes.agrees agree fun k _ => covers k
        refine ⟨.ok (), v, v', .summary (lines :: progress suite (selected suite l) counts)
          (summaryLine (selected suite l).length), agree', by simp, fun _ coloured => rfl, ?_, ?_⟩
        · rw [carryOut_of_passes reads built lists passes, consoleAfter, Console.debugAll_shows,
            Console.success_shows]
        · rw [← targets] at passes'
          rw [carryOut_of_passes reads' built' lists' passes', consoleAfter,
            Console.debugAll_shows, Console.success_shows, targets]
      · obtain ⟨u', passes', agree'⟩ := passes.agrees agree fun k _ => covers k
        have same := Suite.generate_agrees agree' (covers k)
        rw [fails] at same
        rcases fails' : suite.generate u' k j.context with ⟨r, v'⟩
        rw [fails'] at same
        obtain ⟨rfl, agree''⟩ := same
        refine ⟨.error (.failure f), v, v', .progress (lines :: progressTo suite before counts k),
          agree'', by simp, fun _ coloured => rfl, ?_, ?_⟩
        · rw [carryOut_of_fails reads built lists split passes fails, consoleAfter,
            Console.debugAll_shows]
        · rw [carryOut_of_fails reads' built' lists' (targets.trans split) passes' fails',
            consoleAfter, Console.debugAll_shows, targets]

/-! ## Section 3: How a run ends -/

/-- The exit code for what a command line came to, or the failure of the run itself. -/
def exitOf : Except Stop Unit → Except Failure Nat
  | .ok () => .ok 0
  | .error (.usage stop) => .ok stop.exitCode
  | .error (.failure f) => if f.message?.isSome then .ok 1 else .error .noText

/-- The line that reports what a command line came to, with or without colours. -/
def reportOf (coloured : Bool) : Except Stop Unit → String
  | .error (.failure f) =>
    match f.message? with
    | some m =>
      (if coloured then paint .red (Failure.errorLine m) else Failure.errorLine m) ++ "\n"
    | none => ""
  | _ => ""

/-- A command line that is read reports a failure whatever its level. -/
theorem run_of_carryOut {result : Except Stop Unit} {v : Workspace} {t : Transcript}
    {st : Settings} (accepted : ∀ stop, result ≠ .error (.usage stop))
    (carried : j.carryOut args s = (result, ⟨v, (s.console.configure (some st.level)).shows t⟩)) :
    j.run args s = (exitOf result, ⟨v, { (s.console.configure (some st.level)).shows t with
      err := s.console.err ++ reportOf s.console.colours result }⟩) := by
  rcases result with (stop | f) | ⟨⟩
  · exact absurd rfl (accepted stop)
  · have shown : ((s.console.configure (some st.level)).shows t).level.Shows .error := shows_error st
    cases message : f.message? with
    | none => simp [run, carried, message, exitOf, reportOf, Console.shows, Console.configure]
    | some m =>
      rw [run_of_failure carried message, Console.error, if_pos shown]
      simp only [exitOf, reportOf, message, Console.printErrorLine, Console.painted, Console.shows,
        Console.configure, String.append_assoc]
      rfl
  · rw [run_of_ok carried]
    simp [exitOf, reportOf, Console.shows, Console.configure]

theorem printErrorLine_eq (c : Console) (m : String) :
    c.printErrorLine m = { c with out := c.out ++ "", err := c.err ++ (m ++ "\n") } := by
  rw [Console.printErrorLine, String.append_empty, String.append_assoc]

/-- What is printed on a command line that is not read does not depend on the console. -/
theorem announce_eq (p : Program) (stop : UsageStop) : ∃ out err, ∀ c : Console,
    announce p c stop = { c with out := c.out ++ out, err := c.err ++ err } := by
  cases stop with
  | version =>
    refine ⟨p.version ++ "\n", "", fun c => ?_⟩
    rw [announce, String.append_empty, Console.printLine, Console.print]
  | help =>
    refine ⟨helpText p, "", fun c => ?_⟩
    rw [announce, String.append_empty, Console.print]
  | missingDirectory => exact ⟨"", _, fun c => printErrorLine_eq c _⟩
  | unknownOption arg => exact ⟨"", _, fun c => printErrorLine_eq c _⟩

end Job

/-! ## Section 4: Histories -/

/-- A program that is run in a process. -/
structure Invocation where
  context : Type
  job : Job context
  args : List String

/-- The session after programs are run in one process, whatever they come to. -/
def Session.after (s : Session) (history : List Invocation) : Session :=
  history.foldl (fun s i => (i.job.run i.args s).2) s

namespace Job

theorem run_colours (j : Job α) (args : List String) (s : Session) :
    (j.run args s).2.console.colours = s.console.colours := by
  cases reads : j.read args with
  | error stop =>
    obtain ⟨out, err, announced⟩ := announce_eq j.program stop
    simp only [run, carryOut, reads, announced]
  | ok l =>
    obtain ⟨result, v, v', t, -, accepted, -, carried, -⟩ :=
      carryOut_alike reads reads ⟨rfl, rfl, rfl⟩ (.refl j.Makes s.workspace)
    rw [run_of_carryOut accepted carried]
    rfl

end Job

theorem Session.after_colours (s : Session) (history : List Invocation) :
    (s.after history).console.colours = s.console.colours := by
  induction history generalizing s with
  | nil => rfl
  | cons i rest ih => exact (ih _).trans (i.job.run_colours i.args s)

/-- Two runs end in the same way, leave the same tree, and add the same text to the error output. -/
structure SameEnding {ρ : Type} (s s' : Session) (x x' : ρ × Session) : Prop where
  result : x'.1 = x.1
  tree : x'.2.workspace.tree = x.2.workspace.tree
  err : ∃ text, x.2.console.err = s.console.err ++ text ∧ x'.2.console.err = s'.console.err ++ text

/-- Two runs also add the same text to the output. -/
structure SameEffect {ρ : Type} (s s' : Session) (x x' : ρ × Session) : Prop
    extends SameEnding s s' x x' where
  out : ∃ text, x.2.console.out = s.console.out ++ text ∧ x'.2.console.out = s'.console.out ++ text

namespace Job

/-- Two command lines that differ in their level end in the same way, and what they print on the
    output is one transcript. -/
theorem effects_alike (reads : j.read args = .ok l)
    (reads' : j.read args' = .ok l') (alike : Alike l l')
    (agree : s.workspace.AgreeOn j.Makes s'.workspace)
    (colours : s'.console.colours = s.console.colours) :
    SameEnding s s' (j.carryOut args s) (j.carryOut args' s') ∧
    SameEnding s s' (j.run args s) (j.run args' s') ∧
    ∃ printed : Level → String, (l.settings.list = false → printed .error = "") ∧
      (j.carryOut args s).2.console.out = s.console.out ++ printed l.settings.level ∧
      (j.run args s).2.console.out = s.console.out ++ printed l.settings.level ∧
      (j.carryOut args' s').2.console.out = s'.console.out ++ printed l'.settings.level ∧
      (j.run args' s').2.console.out = s'.console.out ++ printed l'.settings.level := by
  obtain ⟨result, v, v', t, same, accepted, silent, carried, carried'⟩ :=
    carryOut_alike reads reads' alike agree
  rw [run_of_carryOut accepted carried, run_of_carryOut accepted carried', carried, carried']
  refine ⟨⟨rfl, same.tree, "", ?_, ?_⟩, ⟨rfl, same.tree, reportOf s.console.colours result, rfl, ?_⟩,
    fun level => t level s.console.colours, fun generates => silent generates _, rfl, rfl, ?_, ?_⟩
  · exact String.append_empty.symm
  · exact String.append_empty.symm
  · rw [← colours]
  · rw [← colours]
    rfl
  · rw [← colours]
    rfl

/-- A run in a process does not depend on what was run there before, apart from the tree that it
    finds and the counts of the classes that its producers make instances of: it ends in the same
    way, leaves the same tree and prints the same text, whatever level earlier runs have left
    behind.  Being verbose or quiet changes nothing but the output, and a quiet run that does not
    list has none. -/
theorem independent_of_history (j : Job α) (args : List String) {start start' : Session}
    (history history' : List Invocation)
    (colours : start'.console.colours = start.console.colours)
    (agree : (start.after history).workspace.AgreeOn j.Makes (start'.after history').workspace) :
    let s := start.after history
    let s' := start'.after history'
    -- the same arguments
    SameEffect s s' (j.carryOut args s) (j.carryOut args s') ∧
    SameEffect s s' (j.run args s) (j.run args s') ∧
    ∀ l, j.read args = .ok l →
      -- arguments that choose another level
      (∀ args' l', j.read args' = .ok l' → Alike l l' →
        SameEnding s s' (j.carryOut args s) (j.carryOut args' s') ∧
        SameEnding s s' (j.run args s) (j.run args' s')) ∧
      -- quiet runs
      (l.settings.quiet = true → l.settings.list = false →
        (j.carryOut args s).2.console.out = s.console.out ∧
        (j.run args s).2.console.out = s.console.out) := by
  intro s s'
  have coloured : s'.console.colours = s.console.colours := by
    rw [Session.after_colours, Session.after_colours, colours]
  cases reads : j.read args with
  | error stop =>
    -- nothing is done, and the level has no part in what is printed
    obtain ⟨out, err, announced⟩ := announce_eq j.program stop
    simp only [run, carryOut, reads, announced]
    refine ⟨⟨⟨rfl, agree.tree, err, rfl, rfl⟩, out, rfl, rfl⟩,
      ⟨⟨rfl, agree.tree, err, rfl, rfl⟩, out, rfl, rfl⟩, ?_⟩
    rintro l ⟨⟩
  | ok l =>
    obtain ⟨ending, ending', printed, silent, out, out', also, also'⟩ :=
      effects_alike reads reads ⟨rfl, rfl, rfl⟩ agree coloured
    refine ⟨⟨ending, _, out, also⟩, ⟨ending', _, out', also'⟩, ?_⟩
    rintro l' ⟨⟩
    constructor
    · intro args' l' reads' alike
      obtain ⟨ending, ending', -⟩ := effects_alike reads reads' alike agree coloured
      exact ⟨ending, ending'⟩
    · intro quiet generates
      have level : l.settings.level = .error := if_pos quiet
      rw [out, out', level, silent generates, String.append_empty]
      exact ⟨rfl, rfl⟩

/-- Two targets, of which the second one fails, after a quiet listing and after a line that is not
    read. -/
theorem independent_of_history_of_two :
    let good : Unit → Production := fun _ => { steps := [] }
    let bad : Unit → Production := fun _ => { steps := [.fail (.stopped "no")] }
    let j : Job Unit := { program := .default, table := [("a", good), ("b", bad)], context := () }
    let s := Session.after {} [⟨Unit, j, ["-q", "--list"]⟩]
    let s' := Session.after {} [⟨Unit, j, ["--nope"]⟩]
    s.console.level = .error ∧ s'.console.level = .info ∧
      SameEffect s s' (j.run ["-v"] s) (j.run ["-v"] s') ∧
      SameEnding s s' (j.run ["-v"] s) (j.run ["-vq"] s') ∧
      (j.run ["-vq"] s').2.console.out = s'.console.out := by
  intro good bad j s s'
  have agree : s.workspace.AgreeOn j.Makes s'.workspace := ⟨by rfl, fun c _ => by rfl⟩
  have verbose : j.read ["-v"] = .ok { settings := { verbose := true } } := by
    decide +kernel
  have quiet : j.read ["-vq"] = .ok { settings := { verbose := true, quiet := true } } := by
    decide +kernel
  obtain ⟨-, same, others⟩ := independent_of_history j ["-v"] _ _ rfl agree
  obtain ⟨-, ending⟩ := (others _ verbose).1 ["-vq"] _ quiet ⟨rfl, rfl, rfl⟩
  obtain ⟨-, -, others'⟩ := independent_of_history j ["-vq"] _ _ rfl (.refl j.Makes s'.workspace)
  obtain ⟨-, out⟩ := (others' _ quiet).2 rfl rfl
  exact ⟨by decide +kernel, by decide +kernel, same, ending, out⟩

end Job

end Command

end CaseGen
