import CaseGen.Command.Arguments
import CaseGen.Command.Help
import CaseGen.Command.Targets
import CaseGen.Console
import CaseGen.ConstantTime.Suite
import CaseGen.Suite

/-! # Running a command line

    A command line chooses a level for messages and a suite.  It either
    lists the data files of the suite or generates the selected targets one
    after another, and ends at the first one that fails.

    * `Session`      — the workspace and the console
    * `Job.suiteOf`  — the suite that a command line leads to
    * `Job.carryOut` — carries a command line out, or stops
    * `Job.run`      — the same with failures reported and an exit code -/

namespace CaseGen.Command

/-! ## Section 1: Sessions and jobs -/

/-- What a run acts on. -/
structure Session where
  workspace : Workspace := {}
  console : Console := {}

/-- Why a run ends early. -/
inductive Stop where
  | usage (stop : UsageStop)
  | failure (f : Failure)

/-- A program with its targets, the context that they are generated in, and the reader of its
    command lines. -/
structure Job (α : Type) where
  program : Program
  table : TargetTable α
  context : α
  read : List String → Except UsageStop CommandLine := CommandLine.read

/-- The level that the options choose; being quiet wins over being verbose. -/
def Settings.level (s : Settings) : Level :=
  if s.quiet then .error else if s.verbose then .debug else .info

/-- The options value that a command line stands for; the caller is the program. -/
def Settings.options (s : Settings) (p : Program) : Value :=
  .obj ((s.directory.map fun d => ("directory", Value.str d)).toList ++ [("caller", .str p.name)])

namespace Job

variable {α : Type}

/-- The suite for the options of a command line. -/
def suite (j : Job α) (s : Settings) : Except Failure (Suite α) :=
  Suite.ofOptions none (some (s.options j.program)) j.table

/-- The suite that a command line leads to, if it leads to one. -/
def suiteOf (j : Job α) (args : List String) : Option (Suite α) :=
  match j.read args with
  | .error _ => none
  | .ok l => (j.suite l.settings).toOption

/-! ## Section 2: Generating -/

/-- The list of selected targets, as a message shows it. -/
def selectionText (selected : List String) : String :=
  let text := ", ".intercalate selected
  if text = "" then "(none)" else text

/-- Generates targets one after another, up to the first failure. -/
def generateAll (j : Job α) (suite : Suite α) (s : Session) :
    List String → Except Stop Unit × Session
  | [] => (.ok (), s)
  | name :: rest =>
    let file := suite.fileName name
    let s := { s with console := s.console.debug ("Generating " ++ file) }
    match suite.generate s.workspace name j.context with
    | (.error f, workspace) => (.error (.failure f), { s with workspace })
    | (.ok count, workspace) =>
      let message := "Wrote " ++ toString count ++ " test cases to " ++ file
      j.generateAll suite { workspace, console := s.console.debug message } rest

/-- Generates the selected targets and sums up. -/
def generate (j : Job α) (suite : Suite α) (operands : List String) (s : Session) :
    Except Stop Unit × Session :=
  let selected := resolveTargets operands suite.targetNames
  let message := "Selected targets: " ++ selectionText selected
  match j.generateAll suite { s with console := s.console.debug message } selected with
  | (.error stop, s) => (.error stop, s)
  | (.ok (), s) => (.ok (), { s with console := s.console.success (summaryLine selected.length) })

/-- Lists the data files of a suite. -/
def list (suite : Suite α) (s : Session) : Session :=
  { s with console := suite.fileNames.foldl Console.printLine s.console }

/-! ## Section 3: The command line -/

/-- Shows what a usage stop has to show. -/
def announce (p : Program) (c : Console) (stop : UsageStop) : Console :=
  match stop with
  | .version => c.printLine p.version
  | .help => c.print (helpText p)
  | stop => c.printErrorLine (stop.message p.version)

/-- Carries a command line out. -/
def carryOut (j : Job α) (args : List String) (s : Session) : Except Stop Unit × Session :=
  match j.read args with
  | .error stop =>
    (.error (.usage stop), { s with console := announce j.program s.console stop })
  | .ok l =>
    let s := { s with console := s.console.configure (some l.settings.level) }
    match j.suite l.settings with
    | .error f => (.error (.failure f), s)
    | .ok suite =>
      if l.settings.list then (.ok (), list suite s) else j.generate suite l.operands s

/-- Carries a command line out, reports a failure, and gives the exit code.  It fails
    itself only where a thrown value has no text to report. -/
def run (j : Job α) (args : List String) (s : Session) : Except Failure Nat × Session :=
  match j.carryOut args s with
  | (.ok (), s) => (.ok 0, s)
  | (.error (.usage stop), s) => (.ok stop.exitCode, s)
  | (.error (.failure f), s) =>
    match f.message? with
    | none => (.error .noText, s)
    | some message =>
      (.ok 1, { s with console := s.console.error (Failure.errorLine message) })

end Job

/-- The job of the program without targets of its own. -/
def emptyJob (p : Program) : Job Unit where
  program := p
  table := []
  context := ()

/-- The job of the program for the constant-time suite. -/
def constantTimeJob : Job (List ConstantTime.WordSize) where
  program := .constantTime
  table := ConstantTime.table
  context := ConstantTime.wordSizes

end CaseGen.Command
