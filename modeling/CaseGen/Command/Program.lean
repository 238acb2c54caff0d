/-! # Programs

    What a command line program is called, what it says of itself, and its
    options. -/

namespace CaseGen.Command

/-- The version of the library. -/
def libraryVersion : String := "0.1.0"

/-- A command line program. -/
structure Program where
  name : String
  description : String
  version : String := libraryVersion
  deriving DecidableEq, Repr

/-- The program without targets of its own. -/
def Program.default : Program where
  name := "testgen"
  description := "Generate test data files"

/-- The program for the constant-time suite. -/
def Program.constantTime : Program where
  name := "generate-constant-time-tests"
  description := "Generate test data for the constant-time primitives"

/-- An option as the help shows it. -/
structure OptionRow where
  flags : String
  description : String
  deriving DecidableEq, Repr

/-- The options of a program, without the one for help. -/
def optionRows : List OptionRow := [
  ⟨"-V, --version", "output the version number"⟩,
  ⟨"--list", "List available targets and exit"⟩,
  ⟨"-d, --directory <dir>", "Directory to write data files to (default: tests/suites)"⟩,
  ⟨"-v, --verbose", "Verbose output"⟩,
  ⟨"-q, --quiet", "Quiet mode (errors only)"⟩]

/-- The option that shows the help. -/
def helpRow : OptionRow := ⟨"-h, --help", "display help for command"⟩

/-- The argument of a program. -/
def argumentRow : OptionRow :=
  ⟨"targets", "Target file to generate (default: all; \"-\": none)"⟩

/-- The long names of all options. -/
def longNames : List String := ["version", "list", "directory", "verbose", "quiet", "help"]

end CaseGen.Command
