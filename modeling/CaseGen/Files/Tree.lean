import CaseGen.Files.Path
import CaseGen.Text.Units

/-! # File trees

    A tree maps paths to directories and files.  Its root, the empty path,
    is always a directory and is not stored.  One directory of the tree is
    its home, from which relative path texts start.

    * `bytesOf`, `bytesOfUnits` — the bytes of a text
    * `Tree.lookup`      — what stands at a path
    * `Tree.insert`      — puts an entry at a path
    * `Tree.erase`       — takes one entry away
    * `Tree.eraseUnder`  — takes an entry away with everything below it -/

namespace CaseGen.Files

/-- What a file holds. -/
abbrev Bytes := List UInt8

/-- The bytes of a text, which has no lone surrogates. -/
def bytesOf (s : String) : Bytes := s.toUTF8.data.toList

/-- The bytes of a text of any units, each lone surrogate being replaced. -/
def bytesOfUnits (u : Text.Units) : Bytes := bytesOf (Text.written u)

/-- What stands at a path. -/
inductive Node where
  | directory
  | file (content : Bytes)
  deriving DecidableEq

/-- A path below the root and what stands there.  The depth is kept beside the path, so that
    paths of different depth are told apart at once. -/
structure Entry where
  path : Path
  node : Node
  depth : Nat := path.length
  depth_eq : depth = path.length := by rfl
  deriving DecidableEq

namespace Entry

/-- The entry stands at a path of the given depth. -/
def isAt (p : Path) (depth : Nat) (e : Entry) : Bool := e.depth = depth && e.path = p

theorem isAt_length {p : Path} {e : Entry} : e.isAt p p.length = true ↔ e.path = p := by
  simp only [isAt, Bool.and_eq_true, decide_eq_true_eq, e.depth_eq, and_iff_right_iff_imp]
  exact congrArg List.length

end Entry

/-- The entries of a tree, each at a path of its own, and the path of its home. -/
structure Tree where
  entries : List Entry := []
  home : Path := []
  deriving DecidableEq

namespace Tree

/-- The entry at a path, if there is one. -/
def entryAt? (t : Tree) (p : Path) : Option Entry := t.entries.find? (Entry.isAt p p.length)

theorem entryAt?_eq (t : Tree) (p : Path) :
    t.entryAt? p = t.entries.find? fun e => decide (e.path = p) := by
  refine congrArg (t.entries.find? ·) (funext fun e => ?_)
  rw [Bool.eq_iff_iff, Entry.isAt_length, decide_eq_true_eq]

/-- What stands at a path, if anything does. -/
def lookup (t : Tree) (p : Path) : Option Node :=
  if p = [] then some .directory else (t.entryAt? p).map Entry.node

/-- Puts a node at a path, in place of the one that stands there. -/
def insert (t : Tree) (p : Path) (n : Node) : Tree :=
  let entry : Entry := { path := p, node := n }
  if (t.entryAt? p).isSome then
    { t with entries := t.entries.map fun e => if e.isAt p entry.depth then entry else e }
  else { t with entries := t.entries ++ [entry] }

/-- Takes away the entry at a path. -/
def erase (t : Tree) (p : Path) : Tree :=
  { t with entries := t.entries.filter fun e => e.path ≠ p }

/-- Takes away the entry at a path and all entries below it. -/
def eraseUnder (t : Tree) (p : Path) : Tree :=
  { t with entries := t.entries.filter fun e => ¬ p <+: e.path }

/-- The entries below the home, with their paths from there. -/
def entriesBelowHome (t : Tree) : List (Path × Node) :=
  t.entries.filterMap fun e =>
    if t.home <+: e.path ∧ e.path ≠ t.home then some (e.path.drop t.home.length, e.node)
    else none

/-- The text of an entry in a listing: its path, with a slash after a directory. -/
def entryText : Path × Node → String
  | (p, .directory) => pathText p ++ "/"
  | (p, .file _) => pathText p

/-- The texts of all entries below the home, sorted. -/
def listing (t : Tree) : List String := Text.sort (t.entriesBelowHome.map entryText)

end Tree

end CaseGen.Files
