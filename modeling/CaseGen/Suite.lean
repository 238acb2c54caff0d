import CaseGen.DataFile
import CaseGen.Options

/-! # Suites of data files

    A suite is a table of named producers whose data files stand in one
    directory.  A producer may be given context when its target is
    generated.

    * `Suite.ofOptions`  — a suite with resolved options
    * `Suite.fileName`   — where the data file of a name stands
    * `Suite.fileNameOfUnits` — the same where lone surrogates may occur
    * `Suite.generate`   — writes the data file of one target -/

namespace CaseGen

/-- A table of producers by target name; each name occurs once. -/
abbrev TargetTable (α : Type) := List (String × (α → Production))

/-- A table of producers, the directory of their files, and the caller named in them. -/
structure Suite (α : Type) where
  directory : String
  caller : String
  table : TargetTable α

namespace Suite

variable {α : Type}

/-- A suite with the options of an untyped value.  A caller that is not given is taken
    from the script that runs. -/
def ofOptions (script : Option String) (options : Option Value) (table : TargetTable α) :
    Except Failure (Suite α) :=
  (Options.resolve options).map fun o =>
    { directory := o.directory, caller := o.caller.getD (defaultCaller script), table }

/-- The names of the targets, sorted. -/
def targetNames (s : Suite α) : List String := Text.sort (s.table.map Prod.fst)

/-- The path text of the data file of a name.  No directory means the current one, and a
    slash at the end of the directory is not doubled. -/
def fileName (s : Suite α) (name : String) : String :=
  let file := name ++ ".data"
  if s.directory = "" ∨ s.directory.toList.getLast? = some '/' then s.directory ++ file
  else s.directory ++ "/" ++ file

/-- The path text of the data file of a name in a directory, where both are any units. -/
def fileNameOfUnits (directory name : Text.Units) : Text.Units :=
  let file := name ++ Text.unitsOf ".data"
  if directory = [] ∨ directory.getLast? = some 0x2F then directory ++ file
  else directory ++ (Text.unitsOf "/" ++ file)

/-- The path texts of all data files, by target name. -/
def fileNames (s : Suite α) : List String := s.targetNames.map s.fileName

/-- Writes the data file of a name from the steps of a producer and gives the number of
    its test cases. -/
def write (s : Suite α) (w : Workspace) (name : String) (steps : List Step) :
    Except Failure Nat × Workspace :=
  w.writeDataFile (s.fileName name) s.caller steps

/-- Calls the producer of a target and writes its data file. -/
def generate (s : Suite α) (w : Workspace) (name : String) (context : α) :
    Except Failure Nat × Workspace :=
  match s.table.lookup name with
  | none => (.error (.unknownTarget name), w)
  | some producer =>
    match (producer context).call w with
    | (.error f, w) => (.error f, w)
    | (.ok steps, w) => s.write w name steps

end Suite

end CaseGen
