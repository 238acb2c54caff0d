/-! # Paths

    A path is the list of names that leads from the root of a tree to one
    of its entries.  A path text separates names by slashes; it may hold
    empty names and the names `.` and `..`, which say how to walk and are
    no names of entries.

    * `pieces`, `joined`          — a text cut at its slashes, and put together again
    * `segments`                  — the pieces that are not empty
    * `directoryOf`, `baseNameOf` — a text without its last name, and that name -/

namespace CaseGen.Files

/-- The names from the root of a tree to an entry; the root itself is the empty path. -/
abbrev Path := List String

/-- The text of a path. -/
def pathText (p : Path) : String := "/".intercalate p

/-! ## Section 1: Cutting a text -/

/-- The pieces between the slashes of a text; there is always at least one. -/
def splitSlashes : List Char → List (List Char)
  | [] => [[]]
  | c :: rest =>
    if c = '/' then [] :: splitSlashes rest
    else
      match splitSlashes rest with
      | [] => [[c]]
      | piece :: pieces => (c :: piece) :: pieces

/-- The pieces of a path text. -/
def pieces (text : String) : List String := (splitSlashes text.toList).map String.ofList

/-- Pieces put together again. -/
def joined (pieces : List String) : String := "/".intercalate pieces

/-- The pieces of a path text that are not empty. -/
def segments (text : String) : List String := (pieces text).filter (· ≠ "")

/-! ## Section 2: Directory and base name -/

/-- The text of the directory that holds the entry.  Slashes at the end do not count.
    A text without a directory part stands in the current directory, and doubled slashes
    in front of the last name are cut by one. -/
def directoryOf (text : String) : String :=
  let cs := text.toList
  match (cs.reverse.dropWhile (· = '/')).dropWhile (· ≠ '/') with
  | [] => if cs.head? = some '/' then "/" else "."
  | [_] => "/"
  | _ :: rest => if rest = ['/'] then "//" else String.ofList rest.reverse

/-- The last name of a path text, slashes at the end not counting. -/
def baseNameOf (text : String) : String :=
  String.ofList ((text.toList.reverse.dropWhile (· = '/')).takeWhile (· ≠ '/')).reverse

end CaseGen.Files
