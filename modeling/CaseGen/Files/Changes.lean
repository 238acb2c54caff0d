import CaseGen.Files.Access

/-! # From one tree to another

    A run works on a tree that shows the part of a file system which it may
    look at.  Afterwards the changes lead the file system from the tree
    before the run to the one after it.

    * `visited`      — the paths that the walk of a path text looks at
    * `Tree.changes` — what has to be done to get from one tree to another -/

namespace CaseGen.Files

/-- The paths below a directory that a walk through names looks at. -/
def visited (cur : Path) : List String → List Path
  | [] => []
  | name :: rest =>
    if name = "." then visited cur rest
    else if name = ".." then visited cur.dropLast rest
    else (cur ++ [name]) :: visited (cur ++ [name]) rest

/-- One change of a file system. -/
inductive Change where
  | makeDirectory (p : Path)
  | writeFile (p : Path) (content : Bytes)
  | removeFile (p : Path)
  deriving DecidableEq

/-- The changes from one tree to another that keeps its directories: what is gone comes
    first, and a directory before what stands in it. -/
def Tree.changes (before after : Tree) : List Change :=
  (before.entries.filterMap fun e =>
    if (after.lookup e.path).isNone then some (.removeFile e.path) else none) ++
  after.entries.filterMap fun e =>
    if before.lookup e.path = some e.node then none
    else
      match e.node with
      | .directory => some (.makeDirectory e.path)
      | .file content => some (.writeFile e.path content)

end CaseGen.Files
