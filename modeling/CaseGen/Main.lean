import CaseGen.Command.Run
import CaseGen.Files.Changes

/-! # The program for the constant-time suite

    Shows the job the part of the file system that it may look at, carries
    the command line out on it, makes the changes, and prints. -/

namespace CaseGen

/-- The path texts that a command line may look at. -/
def relevantTexts (args : List String) : List String :=
  match Command.constantTimeJob.suiteOf args with
  | none => []
  | some suite =>
    suite.fileNames.flatMap fun file => [Files.directoryOf file, file, temporaryName file]

/-- The text of a path from the root of the file system. -/
def absoluteText (p : Files.Path) : String := "/" ++ Files.pathText p

/-- What the file system holds at the given paths.  Contents are not read. -/
def snapshot (home : Files.Path) (paths : List Files.Path) : IO Files.Tree := do
  let here ← IO.currentDir
  let mut tree : Files.Tree := { home }
  for p in paths do
    let place := here / absoluteText p
    if ← place.isDir then
      tree := tree.insert p .directory
    else if ← place.pathExists then
      tree := tree.insert p (.file [])
  return tree

/-- Makes a change in the file system. -/
def makeChange : Files.Change → IO Unit
  | .makeDirectory p => IO.FS.createDir (absoluteText p)
  | .removeFile p => IO.FS.removeFile (absoluteText p)
  | .writeFile p content => do
    let temporary := temporaryName (absoluteText p)
    IO.FS.writeBinFile temporary ⟨content.toArray⟩
    IO.FS.rename temporary (absoluteText p)

/-- Carries a command line out in the file system. -/
def runProgram (args : List String) : IO UInt32 := do
  let home := Files.segments (← IO.currentDir).toString
  let texts := relevantTexts args
  let paths := texts.flatMap fun text =>
    Files.visited (Files.startOf { home } text) (Files.segments text)
  let above := (List.range (home.length + 1)).map home.take
  let tree ← snapshot home ((above ++ paths).eraseDups.filter (· ≠ []))
  let colours ← (← IO.getStdout).isTty
  let session : Command.Session := { workspace := { tree }, console := { colours } }
  let (result, session) := Command.constantTimeJob.run args session
  (tree.changes session.workspace.tree).forM makeChange
  IO.print session.console.out
  IO.eprint session.console.err
  match result with
  | .ok code => return UInt32.ofNat code
  | .error f =>
    IO.eprintln (f.message?.getD "")
    return 1

end CaseGen

/-- Generates the data files of the constant-time suite. -/
def main (args : List String) : IO UInt32 := CaseGen.runProgram args
