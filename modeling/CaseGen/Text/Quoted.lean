import CaseGen.Text.Hex
import CaseGen.Text.Order

/-! # Texts in quotes

    A message shows a text between quotes, so that blanks at its ends and
    characters without a shape can be seen.  Single quotes are taken unless
    the text holds one and other quotes serve better.  Control characters,
    backslashes and the quote itself are escaped.  A long text is shown line
    by line, and a very long one is clipped.

    * `quoted`  — a text in quotes
    * `exhibit` — a text as a message shows it -/

namespace CaseGen.Text

/-! ## Section 1: Quotes -/

/-- A dollar sign stands in front of an opening brace. -/
def holdsPlaceholder : List Char → Bool
  | [] => false
  | c :: rest => (c = '$' && rest.head? = some '\x7b') || holdsPlaceholder rest

/-- The quote for a text: a single one, a double one where the text holds single ones, a
    backquote where it holds both; and a single one again where it would need all three
    or a backquote would give it another meaning. -/
def quoteFor (cs : List Char) : Char :=
  if '\x27' ∉ cs then '\x27'
  else if '"' ∉ cs then '"'
  else if '\x60' ∉ cs ∧ ¬ holdsPlaceholder cs then '\x60'
  else '\x27'

/-- A control character: below the blank, or from the delete character to U+009F. -/
def IsControl (c : Char) : Prop := c.toNat < 32 ∨ (127 ≤ c.toNat ∧ c.toNat < 160)

instance (c : Char) : Decidable (IsControl c) :=
  inferInstanceAs (Decidable (c.toNat < 32 ∨ (127 ≤ c.toNat ∧ c.toNat < 160)))

/-- A character between quotes.  Five control characters have letters of their own; the
    others are written as two uppercase hexadecimal digits. -/
def escaped (quote c : Char) : List Char :=
  if c = quote ∨ c = '\\' then ['\\', c]
  else if c = '\x08' then ['\\', 'b']
  else if c = '\t' then ['\\', 't']
  else if c = '\n' then ['\\', 'n']
  else if c = '\x0c' then ['\\', 'f']
  else if c = '\r' then ['\\', 'r']
  else if IsControl c then '\\' :: 'x' :: (hexByte (UInt8.ofNat c.toNat)).map Char.toUpper
  else [c]

/-- A text in quotes. -/
def quoted (cs : List Char) : List Char :=
  let quote := quoteFor cs
  quote :: (cs.flatMap (escaped quote) ++ [quote])

/-! ## Section 2: Long texts -/

/-- A text cut after each of its line feeds. -/
def cutAfterLineFeeds : List Char → List (List Char)
  | [] => []
  | c :: rest =>
    if c = '\n' then [c] :: cutAfterLineFeeds rest
    else
      match cutAfterLineFeeds rest with
      | [] => [[c]]
      | line :: lines => (c :: line) :: lines

/-- The most units of a text that are read to show it. -/
def maxReadUnits : Nat := 10000

/-- The most units of a text that is shown in one piece. -/
def maxPieceUnits : Nat := 76

/-- The most units that are shown of a text with its quotes. -/
def maxShownUnits : Nat := 128

/-- The characters that fit into a number of units, up to the first one that does not. -/
def takeUnits : Nat → List Char → List Char
  | _, [] => []
  | room, c :: rest =>
    let size := (charUnits c).length
    if size ≤ room then c :: takeUnits (room - size) rest else []

/-- The number of units of characters. -/
def unitCount (cs : List Char) : Nat := (cs.flatMap charUnits).length

/-- Characters as a message shows them: in quotes, many of them line by line with plus signs
    between the lines. -/
def quotedByLine (cs : List Char) : List Char :=
  if unitCount cs ≤ maxPieceUnits then quoted cs
  else List.intercalate [' ', '+', '\n', ' ', ' '] ((cutAfterLineFeeds cs).map quoted)

/-- A text as a message shows it: in quotes, and clipped where it is longer than a message
    may show.  Only the start of a very long text is read, so the rest has no say in the
    choice of the quotes. -/
def exhibit (s : String) : String :=
  let shown := quotedByLine (takeUnits maxReadUnits s.toList)
  if unitCount shown ≤ maxShownUnits then String.ofList shown
  else String.ofList (takeUnits maxShownUnits shown ++ ['.', '.', '.'])

end CaseGen.Text
