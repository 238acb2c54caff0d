import CaseGen.Production

/-! # Writing a data file

    A data file holds a header line, the lines of its records and a footer.
    It is written under a temporary name beside its own and moved there
    once it is complete, so its own name never holds half a file.  If
    anything goes wrong after the temporary file is open, that file is
    removed again, and with it the first directory that was made for it.

    * `headerLine`, `footerLine`, `dataFileText` — the format
    * `Sink`            — an open file and the place of the next byte
    * `Workspace.fill`  — writes records as a producer yields them
    * `Workspace.writeDataFile` — the whole of it -/

namespace CaseGen

/-! ## Section 1: The format -/

/-- The first line of a data file. -/
def headerLine (caller : String) : String :=
  "# Automatically generated by " ++ caller ++ ". Do not edit!"

/-- The last line of a data file. -/
def footerLine : String := "# End of automatically generated file."

/-- The text after the last record. -/
def footerText : String := "\n" ++ footerLine ++ "\n"

/-- The text of a complete data file. -/
def dataFileText (caller : String) (records : List Record) : String :=
  headerLine caller ++ "\n" ++ String.join (records.map fun r => textOfLines r.lines) ++ footerText

/-- The caller named in the header unless another one is given: the last name of the
    script that runs. -/
def defaultCaller (script : Option String) : String :=
  match script with
  | none | some "" => "testgen"
  | some path => Files.baseNameOf path

/-- The name under which a data file is written before it is complete. -/
def temporaryName (filename : String) : String := filename ++ ".new"

/-! ## Section 2: An open file -/

/-- A file opened for writing, and the place of the next byte. -/
structure Sink where
  path : Files.Path
  offset : Nat := 0

namespace Workspace

/-- Writes a text into an open file. -/
def append (w : Workspace) (sink : Sink) (text : String) : Sink × Workspace :=
  let bytes := Files.bytesOf text
  ({ sink with offset := sink.offset + bytes.length },
    { w with tree := Files.overwrite w.tree sink.path sink.offset bytes })

/-- Takes the steps of a producer and writes the records that they yield.  Gives the
    number of records after those counted so far. -/
def fill (w : Workspace) (sink : Sink) (count : Nat) :
    List Step → Except Failure (Sink × Nat) × Workspace
  | [] => (.ok (sink, count), w)
  | s :: rest =>
    match w.perform s with
    | (.error f, w) => (.error f, w)
    | (.ok none, w) => w.fill sink count rest
    | (.ok (some d), w) =>
      match d.lines with
      | .error f => (.error f, w)
      | .ok lines =>
        let (sink, w) := w.append sink (textOfLines lines)
        w.fill sink (count + 1) rest

/-! ## Section 3: Commit and rollback -/

/-- Removes the temporary file and the first directory that was made for it. -/
def rollBack (w : Workspace) (filename : String) (created : Option String) : Workspace :=
  let tree := Files.remove w.tree (temporaryName filename)
  match created with
  | none => { w with tree }
  | some directory => { w with tree := Files.removeAll tree directory }

/-- Moves the complete file to its own name. -/
def commit (w : Workspace) (filename : String) : Except Failure Unit × Workspace :=
  match Files.rename w.tree (temporaryName filename) filename with
  | .error e => (.error (.file e), w)
  | .ok tree => (.ok (), { w with tree })

/-- Writes header, records and footer into the open file and commits it. -/
def writeOpened (w : Workspace) (sink : Sink) (filename caller : String) (steps : List Step) :
    Except Failure Nat × Workspace :=
  let (sink, w) := w.append sink (headerLine caller ++ "\n")
  match w.fill sink 0 steps with
  | (.error f, w) => (.error f, w)
  | (.ok (sink, count), w) =>
    match (w.append sink footerText).2.commit filename with
    | (.error f, w) => (.error f, w)
    | (.ok (), w) => (.ok count, w)

/-- Writes the test cases of a producer to a data file and gives their number. -/
def writeDataFile (w : Workspace) (filename caller : String) (steps : List Step) :
    Except Failure Nat × Workspace :=
  match Files.ensureDirectory w.tree (Files.directoryOf filename) with
  | (.error e, tree) => (.error (.file e), { w with tree })
  | (.ok created, tree) =>
    match Files.openFile tree (temporaryName filename) with
    | .error e => (.error (.file e), { w with tree })
    | .ok (path, tree) =>
      match { w with tree }.writeOpened { path } filename caller steps with
      | (.error f, w) => (.error f, w.rollBack filename created)
      | (.ok count, w) => (.ok count, w)

end Workspace

end CaseGen
