import CaseGen.Command.Suggestion

/-! # Reading a command line

    Arguments are read from left to right.  Known options may stand
    anywhere, also between targets; short flags may be put together.  The
    first argument that looks like an option but is none makes every later
    target an unknown argument too.

    * `Settings`          — what the options of a command line say
    * `UsageStop`         — why a command line is not carried out
    * `readArgument`      — the flags that an argument opens with, and the rest of it
    * `CommandLine.read`  — the settings and targets of a command line -/

namespace CaseGen.Command

/-! ## Section 1: Results -/

/-- What the options say. -/
structure Settings where
  list : Bool := false
  verbose : Bool := false
  quiet : Bool := false
  directory : Option String := none
  deriving DecidableEq, Repr

/-- Why a command line is not carried out. -/
inductive UsageStop where
  /-- The version is asked for. -/
  | version
  /-- The help is asked for. -/
  | help
  /-- The directory option stands last. -/
  | missingDirectory
  /-- This argument is not known. -/
  | unknownOption (arg : String)
  deriving DecidableEq, Repr

namespace UsageStop

/-- The code of a stop. -/
def code : UsageStop → String
  | version => "commander.version"
  | help => "commander.helpDisplayed"
  | missingDirectory => "commander.optionMissingArgument"
  | unknownOption _ => "commander.unknownOption"

/-- The exit code of a stop. -/
def exitCode : UsageStop → Nat
  | version | help => 0
  | missingDirectory | unknownOption _ => 1

/-- The message of a stop, for a program of the given version. -/
def message (programVersion : String) : UsageStop → String
  | version => programVersion
  | help => "(outputHelp)"
  | missingDirectory => "error: option '-d, --directory <dir>' argument missing"
  | unknownOption arg => "error: unknown option '" ++ arg ++ "'" ++ suggestionText arg

end UsageStop

/-! ## Section 2: One argument -/

/-- An option without a value. -/
inductive Flag where
  | list | verbose | quiet
  deriving DecidableEq, Repr

/-- What an argument is, after the flags that it opens with. -/
inductive Ending where
  /-- Nothing is left. -/
  | complete
  /-- The version is asked for. -/
  | version
  /-- The directory is given in the argument. -/
  | directory (value : String)
  /-- The directory is the next argument. -/
  | directoryNext
  /-- The rest of the command line holds no options. -/
  | noMoreOptions
  /-- The argument looks like an option but is none. -/
  | unknown (arg : String)
  /-- The argument is a target. -/
  | operand (arg : String)
  deriving DecidableEq, Repr

/-- The start of an argument that gives the directory, up to its value. -/
def directoryStart : List Char := "--directory=".toList

/-- Reads an argument that starts with two dashes. -/
def readLong (cs : List Char) : List Flag × Ending :=
  match String.ofList cs with
  | "--" => ([], .noMoreOptions)
  | "--list" => ([.list], .complete)
  | "--verbose" => ([.verbose], .complete)
  | "--quiet" => ([.quiet], .complete)
  | "--version" => ([], .version)
  | "--directory" => ([], .directoryNext)
  | arg =>
    if directoryStart <+: cs then ([], .directory (String.ofList (cs.drop directoryStart.length)))
    else ([], .unknown arg)

/-- Reads what follows the dash of an argument.  A flag with more letters behind it is
    taken off, and what is left is read as an argument of its own. -/
def readDashed : List Char → List Flag × Ending
  | [] => ([], .operand "-")
  | c :: rest =>
    let flagged (f : Flag) : List Flag × Ending :=
      if rest = [] then ([f], .complete)
      else
        let (flags, ending) := readDashed rest
        (f :: flags, ending)
    if c = '-' then readLong ('-' :: c :: rest)
    else if c = 'v' then flagged .verbose
    else if c = 'q' then flagged .quiet
    else if c = 'V' then ([], .version)
    else if c = 'd' then
      ([], if rest = [] then .directoryNext else .directory (String.ofList rest))
    else ([], .unknown (String.ofList ('-' :: c :: rest)))

/-- Reads an argument. -/
def readArgument (arg : String) : List Flag × Ending :=
  match arg.toList with
  | '-' :: rest => readDashed rest
  | _ => ([], .operand arg)

/-! ## Section 3: The command line -/

/-- What has been read of a command line.  Once something is unknown, later targets are
    unknown as well. -/
structure CommandLine where
  settings : Settings := {}
  operands : List String := []
  unknown : List String := []
  lost : Bool := false
  deriving DecidableEq, Repr

namespace CommandLine

/-- Sets a flag. -/
def setFlag (l : CommandLine) : Flag → CommandLine
  | .list => { l with settings := { l.settings with list := true } }
  | .verbose => { l with settings := { l.settings with verbose := true } }
  | .quiet => { l with settings := { l.settings with quiet := true } }

/-- Sets the directory. -/
def setDirectory (l : CommandLine) (value : String) : CommandLine :=
  { l with settings := { l.settings with directory := some value } }

/-- Adds targets, or unknown arguments once something is unknown. -/
def add (l : CommandLine) (args : List String) : CommandLine :=
  if l.lost then { l with unknown := l.unknown ++ args }
  else { l with operands := l.operands ++ args }

/-- Reads arguments from left to right. -/
def scan (l : CommandLine) : List String → Except UsageStop CommandLine
  | [] => .ok l
  | arg :: rest =>
    let (flags, ending) := readArgument arg
    let l := flags.foldl setFlag l
    match ending with
    | .complete => l.scan rest
    | .version => .error .version
    | .directory value => (l.setDirectory value).scan rest
    | .directoryNext =>
      match rest with
      | [] => .error .missingDirectory
      | value :: rest => (l.setDirectory value).scan rest
    | .noMoreOptions => .ok ((if l.lost then l.add ["--"] else l).add rest)
    | .unknown arg => ({ l with lost := true }.add [arg]).scan rest
    | .operand arg => (l.add [arg]).scan rest

/-- Reads a command line.  Among unknown arguments a request for help comes first;
    otherwise the first of them is reported. -/
def read (args : List String) : Except UsageStop CommandLine :=
  match scan {} args with
  | .error stop => .error stop
  | .ok l =>
    if "-h" ∈ l.unknown ∨ "--help" ∈ l.unknown then .error .help
    else
      match l.unknown with
      | [] => .ok l
      | arg :: _ => .error (.unknownOption arg)

end CommandLine

end CaseGen.Command
