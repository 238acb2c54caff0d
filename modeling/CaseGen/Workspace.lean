import CaseGen.Failure
import CaseGen.Files.Access
import CaseGen.Target.Registry

/-! # The workspace of producers and writers

    Producers and writers of test cases act on a file tree.  They leave
    notes in a trace, and the registry numbers the instances they make.

    * `Note`            — an entry of the trace
    * `Workspace`       — tree, trace and registry
    * `Workspace.touch` — writes a file with the directories it needs -/

namespace CaseGen

/-- An entry of the trace. -/
inductive Note where
  /-- A text left by a producer. -/
  | text (s : String)
  /-- The listing of the tree as a producer saw it. -/
  | listing (paths : List String)
  deriving DecidableEq, Repr

/-- What producers and writers act on. -/
structure Workspace where
  tree : Files.Tree := {}
  trace : List Note := []
  registry : Registry := {}

namespace Workspace

/-- Leaves a note in the trace. -/
def leave (w : Workspace) (n : Note) : Workspace := { w with trace := w.trace ++ [n] }

/-- Writes a file, with the directories it needs. -/
def touch (w : Workspace) (path text : String) : Except Failure Unit × Workspace :=
  match Files.ensureDirectory w.tree (Files.directoryOf path) with
  | (.error e, tree) => (.error (.file e), { w with tree })
  | (.ok _, tree) =>
    match Files.writeFile tree path text with
    | .error e => (.error (.file e), { w with tree })
    | .ok tree => (.ok (), { w with tree })

end Workspace

end CaseGen
