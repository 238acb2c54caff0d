import CaseGen.Files.Error
import CaseGen.Files.Tree

/-! # Operations on a file tree

    Operations take path texts, find the entry by walking the tree, and
    either change the tree or are refused with a cause.  A walk starts at
    the root if the text starts with a slash and at home otherwise; going
    up from the root stays there.

    * `locate`           — where a path text leads
    * `ensureDirectory`  — a directory with all its missing ancestors
    * `openFile`, `overwrite` — an emptied file, and bytes written into it
    * `rename`, `remove`, `removeAll` -/

namespace CaseGen.Files

/-! ## Section 1: Finding an entry -/

/-- The longest name, in bytes. -/
def maxNameBytes : Nat := 255

/-- The longest path text, in bytes. -/
def maxPathBytes : Nat := 4095

/-- Where a path text leads. -/
inductive Location where
  /-- A directory that is there, named by the root or by a step to itself or upwards. -/
  | directory (p : Path)
  /-- The entry of a name in a directory, which need not be there.  With a final slash
      only a directory is meant. -/
  | entry (parent : Path) (name : String) (slash : Bool)
  deriving DecidableEq, Repr

/-- What stands under a name in a directory.  A name that is too long is refused. -/
def child (t : Tree) (parent : Path) (name : String) : Except FileError (Option Node) :=
  if name.utf8ByteSize > maxNameBytes then .error .nameTooLong
  else .ok (t.lookup (parent ++ [name]))

/-- Walks from a directory through the names of directories. -/
def enter (t : Tree) (cur : Path) : List String → Except FileError Path
  | [] => .ok cur
  | name :: rest =>
    if name = "." then enter t cur rest
    else if name = ".." then enter t cur.dropLast rest
    else
      match child t cur name with
      | .error e => .error e
      | .ok none => .error .notFound
      | .ok (some (.file _)) => .error .notDirectory
      | .ok (some .directory) => enter t (cur ++ [name]) rest

/-- The directory that the walk of a path text starts from. -/
def startOf (t : Tree) (text : String) : Path :=
  if text.toList.head? = some '/' then [] else t.home

/-- A path text that may be looked up: it holds no null character. -/
def IsPathText (text : String) : Prop := '\x00' ∉ text.toList

instance (text : String) : Decidable (IsPathText text) :=
  inferInstanceAs (Decidable ('\x00' ∉ text.toList))

/-- Why a path text is refused before anything is looked up, if it is. -/
def textRefusal? (text : String) : Option FileError :=
  if ¬ IsPathText text then some (.nullCharacter text)
  else if text = "" then some .notFound
  else if text.utf8ByteSize > maxPathBytes then some .nameTooLong
  else none

/-- Finds the place of a path text; only its last name need not be there. -/
def locate (t : Tree) (text : String) : Except FileError Location :=
  match textRefusal? text with
  | some e => .error e
  | none =>
    match (segments text).getLast? with
    | none => .ok (.directory (startOf t text))
    | some name =>
      match enter t (startOf t text) (segments text).dropLast with
      | .error e => .error e
      | .ok parent =>
        if name = "." then .ok (.directory parent)
        else if name = ".." then .ok (.directory parent.dropLast)
        else .ok (.entry parent name (text.toList.getLast? = some '/'))

/-! ## Section 2: Directories -/

/-- Walks from a directory through pieces of a path text and makes the directories that are
    missing.  `walked` are the pieces before them, the last one first.  Gives the text that
    leads to the first directory made, if any was made.  What was made before a refusal
    stays. -/
def makeMissing (t : Tree) (cur : Path) (walked : List String) :
    List String → Except FileError (Option String) × Tree
  | [] => (.ok none, t)
  | piece :: rest =>
    if piece = "" ∨ piece = "." then makeMissing t cur (piece :: walked) rest
    else if piece = ".." then makeMissing t cur.dropLast (piece :: walked) rest
    else
      match child t cur piece with
      | .error e => (.error e, t)
      | .ok (some .directory) => makeMissing t (cur ++ [piece]) (piece :: walked) rest
      | .ok (some (.file _)) => (.error (if rest = [] then .exists else .notDirectory), t)
      | .ok none =>
        let place := cur ++ [piece]
        let (r, t) := makeMissing (t.insert place .directory) place (piece :: walked) rest
        (r.map fun _ => some (joined (piece :: walked).reverse), t)

/-- Makes a directory with all its missing ancestors.  Nothing is made if the text is
    refused. -/
def ensureDirectory (t : Tree) (text : String) : Except FileError (Option String) × Tree :=
  match textRefusal? text with
  | some e => (.error e, t)
  | none => makeMissing t (startOf t text) [] (pieces text)

/-! ## Section 3: Files -/

/-- Opens a file for writing.  It is empty afterwards, whatever it held before. -/
def openFile (t : Tree) (text : String) : Except FileError (Path × Tree) :=
  match locate t text with
  | .error e => .error e
  | .ok (.directory _) => .error .isDirectory
  | .ok (.entry parent name slash) =>
    if slash then .error .isDirectory
    else
      match child t parent name with
      | .error e => .error e
      | .ok (some .directory) => .error .isDirectory
      | .ok _ => .ok (parent ++ [name], t.insert (parent ++ [name]) (.file []))

/-- The content with bytes written at an offset.  A gap before the offset is filled with
    zero bytes. -/
def spliced (content : Bytes) (offset : Nat) (bytes : Bytes) : Bytes :=
  content.take offset ++ List.replicate (offset - content.length) 0 ++ bytes ++
    content.drop (offset + bytes.length)

/-- Writes bytes into the file at a path, if a file is there. -/
def overwrite (t : Tree) (p : Path) (offset : Nat) (bytes : Bytes) : Tree :=
  match t.lookup p with
  | some (.file content) => t.insert p (.file (spliced content offset bytes))
  | _ => t

/-- Makes a file with the given text, in a directory that is there. -/
def writeFile (t : Tree) (text content : String) : Except FileError Tree :=
  match openFile t text with
  | .error e => .error e
  | .ok (p, t) => .ok (overwrite t p 0 (bytesOf content))

/-- Moves the file at `source` to `target`, in place of a file that stands there. -/
def rename (t : Tree) (source target : String) : Except FileError Tree :=
  match locate t source, locate t target with
  | .error e, _ => .error e
  | _, .error e => .error e
  | .ok (.directory _), _ => .error .busy
  | _, .ok (.directory _) => .error .busy
  | .ok (.entry oldParent oldName _), .ok (.entry parent name slash) =>
    match child t oldParent oldName, child t parent name with
    | .error e, _ => .error e
    | _, .error e => .error e
    | .ok none, _ => .error .notFound
    | .ok (some .directory), _ => .error .isDirectory
    | .ok (some (.file content)), .ok there =>
      if slash then .error .notDirectory
      else if there = some .directory then .error .isDirectory
      else .ok ((t.erase (oldParent ++ [oldName])).insert (parent ++ [name]) (.file content))

/-- Takes a file away; nothing happens if none is there. -/
def remove (t : Tree) (text : String) : Tree :=
  match locate t text with
  | .ok (.entry parent name _) =>
    match child t parent name with
    | .ok (some (.file _)) => t.erase (parent ++ [name])
    | _ => t
  | _ => t

/-- Takes an entry away with everything below it; nothing happens if it is not there. -/
def removeAll (t : Tree) (text : String) : Tree :=
  match locate t text with
  | .ok (.entry parent name _) => t.eraseUnder (parent ++ [name])
  | _ => t

end CaseGen.Files
