import CaseGen.Command.Program
import CaseGen.Text.Wrap

/-! # Help

    The help names the usage, describes the program, and lists its
    arguments and options in two columns, 80 characters wide.

    * `describe`  — a description in lines
    * `item`      — one row of a list
    * `helpText`  — the whole help of a program -/

namespace CaseGen.Command

/-- The width of the help. -/
def helpWidth : Nat := 80

/-- The blanks in front of a row. -/
def itemIndent : Nat := 2

/-- The blanks between the columns of a row. -/
def columnGap : Nat := 2

/-- The flags column, as wide as the longest flags. -/
def flagsWidth : Nat :=
  ((argumentRow :: helpRow :: optionRows).map fun r => r.flags.length).foldl max 0

/-- A text broken into lines that are shorter than a width, the lines after the first
    being indented; a text that is indented by hand is left alone. -/
def describe (width indent : Nat) (text : String) : String :=
  if Text.indentedByHand text.toList then text
  else String.ofList (Text.wrap (width - 1) indent text.toList)

/-- One row: the flags, filled up with blanks, and the description in its column. -/
def item (row : OptionRow) : String :=
  let column := itemIndent + flagsWidth + columnGap
  let filled := row.flags.toList ++
    List.replicate (flagsWidth + columnGap - row.flags.length) ' '
  String.ofList (List.replicate itemIndent ' ' ++ filled) ++
    describe (helpWidth - column) column row.description

/-- The name that the usage shows; a program without a name is called `program`. -/
def usageName (p : Program) : String := if p.name = "" then "program" else p.name

/-- The lines of the help, a line being allowed to hold line breaks of its own. -/
def helpLines (p : Program) : List String :=
  ["Usage: " ++ usageName p ++ " [options] [targets...]", ""] ++
  (if p.description = "" then [] else [describe helpWidth 0 p.description, ""]) ++
  ["Arguments:", item argumentRow, ""] ++
  ["Options:"] ++ (optionRows ++ [helpRow]).map item

/-- The help of a program. -/
def helpText (p : Program) : String := String.join ((helpLines p).map (· ++ "\n"))

end CaseGen.Command
