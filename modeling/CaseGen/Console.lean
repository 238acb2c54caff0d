/-! # Messages to the user

    Messages have a level and are shown from a chosen level upwards.
    Progress and summary go to the output, failures to the error output,
    each in a colour of its own where colours are on.

    * `paint`        — a text in a colour
    * `Level`        — the levels, from the most to the least talkative
    * `Console`      — the chosen level and what has been printed -/

namespace CaseGen

/-! ## Section 1: Colours -/

/-- The colours of messages. -/
inductive Colour where
  | gray | green | red
  deriving DecidableEq, Repr

namespace Colour

/-- The code that switches a colour on. -/
def opening : Colour → List Char
  | gray => ['\x1b', '[', '9', '0', 'm']
  | green => ['\x1b', '[', '3', '2', 'm']
  | red => ['\x1b', '[', '3', '1', 'm']

/-- The code that switches back to the plain colour. -/
def closing : List Char := ['\x1b', '[', '3', '9', 'm']

/-- Switches a colour on again wherever a text switches back to the plain colour. -/
def reopen (opening : List Char) : List Char → List Char
  | '\x1b' :: '[' :: '3' :: '9' :: 'm' :: rest => closing ++ opening ++ reopen opening rest
  | c :: rest => c :: reopen opening rest
  | [] => []

/-- Switches back to the plain colour around each line break. -/
def aroundBreaks (opening : List Char) : List Char → List Char
  | '\r' :: '\n' :: rest => closing ++ '\r' :: '\n' :: opening ++ aroundBreaks opening rest
  | '\n' :: rest => closing ++ '\n' :: opening ++ aroundBreaks opening rest
  | c :: rest => c :: aroundBreaks opening rest
  | [] => []

end Colour

/-- A text in a colour.  The empty text stays empty. -/
def paint (c : Colour) (s : String) : String :=
  if s = "" then ""
  else
    String.ofList (c.opening ++
      Colour.aroundBreaks c.opening (Colour.reopen c.opening s.toList) ++ Colour.closing)

/-! ## Section 2: Levels -/

/-- The levels of messages, from the most to the least talkative.  No message has the last. -/
inductive Level where
  | debug | info | error | silent
  deriving DecidableEq, Repr

namespace Level

/-- The place of a level in their order. -/
def rank : Level → Nat
  | debug => 0
  | info => 1
  | error => 2
  | silent => 3

/-- The name of a level. -/
def name : Level → String
  | debug => "debug"
  | info => "info"
  | error => "error"
  | silent => "silent"

/-- A message of level `l` is shown where `chosen` is chosen. -/
def Shows (chosen l : Level) : Prop := l ≠ silent ∧ chosen.rank ≤ l.rank

instance (chosen l : Level) : Decidable (chosen.Shows l) :=
  inferInstanceAs (Decidable (l ≠ silent ∧ chosen.rank ≤ l.rank))

end Level

/-! ## Section 3: The console -/

/-- The chosen level, whether colours are on, and what has been printed so far. -/
structure Console where
  level : Level := .info
  colours : Bool := false
  out : String := ""
  err : String := ""
  deriving DecidableEq, Repr

namespace Console

/-- Chooses a level, if one is given. -/
def configure (c : Console) (level : Option Level) : Console :=
  { c with level := level.getD c.level }

/-- Prints text on the output. -/
def print (c : Console) (s : String) : Console := { c with out := c.out ++ s }

/-- Prints a line on the output. -/
def printLine (c : Console) (s : String) : Console := c.print (s ++ "\n")

/-- Prints a line on the error output. -/
def printErrorLine (c : Console) (s : String) : Console := { c with err := c.err ++ s ++ "\n" }

/-- A text in a colour, where colours are on. -/
def painted (c : Console) (colour : Colour) (s : String) : String :=
  if c.colours then paint colour s else s

/-- A line on progress. -/
def debug (c : Console) (s : String) : Console :=
  if c.level.Shows .debug then c.printLine (c.painted .gray s) else c

/-- A line on what was done. -/
def success (c : Console) (s : String) : Console :=
  if c.level.Shows .info then c.printLine (c.painted .green s) else c

/-- A line on a failure. -/
def error (c : Console) (s : String) : Console :=
  if c.level.Shows .error then c.printErrorLine (c.painted .red s) else c

end Console

end CaseGen
