import CaseGen.TestCase.Check

/-! # Lines of a test case

    A record takes a block of lines.  Comments, if any, come first after an
    empty line; a second empty line opens the case proper, which is its
    description, its dependencies if it has any, and its call.

    * `Record.lines` — the lines of a record
    * `Draft.lines`  — the lines of a draft that passes the check -/

namespace CaseGen

namespace Record

/-- An empty line and the comments, or nothing if there is no comment. -/
def commentLines (r : Record) : List String :=
  if r.comments.isEmpty then [] else "" :: r.comments.map ("# " ++ ·)

/-- The line of the dependencies, or nothing if there is none. -/
def dependencyLines (r : Record) : List String :=
  if r.dependencies.isEmpty then [] else ["depends_on:" ++ ":".intercalate r.dependencies]

/-- The function and its arguments, separated by colons. -/
def callLine (r : Record) : String := r.function ++ ":" ++ ":".intercalate r.arguments

/-- The lines that a reader who skips blank lines and comments sees. -/
def bodyLines (r : Record) : List String :=
  r.description :: (r.dependencyLines ++ [r.callLine])

/-- The lines of a record. -/
def lines (r : Record) : List String := r.commentLines ++ "" :: r.bodyLines

end Record

namespace Draft

/-- The lines of a draft, or the failure of its check. -/
def lines (d : Draft) : Except Failure (List String) := d.check.map Record.lines

end Draft

/-- The text of lines, each ended by a line feed. -/
def textOfLines (lines : List String) : String := String.join (lines.map (· ++ "\n"))

end CaseGen
