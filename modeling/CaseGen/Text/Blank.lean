/-! # Blank characters and line ends

    * `IsBlank`     — the blank characters, line ends among them
    * `IsLineEnd`   — the characters that end a line
    * `trimEnd`     — a text without blank characters at its end -/

namespace CaseGen.Text

/-- The characters that end a line: line feed, carriage return, and the separators of
    lines and of paragraphs. -/
def lineEnds : List Char := ['\n', '\r', '\u2028', '\u2029']

/-- The blank characters outside the run from U+2000 to U+200A. -/
def singleBlanks : List Char :=
  ['\t', '\n', '\u000b', '\u000c', '\r', ' ', '\u00a0', '\u1680', '\u2028', '\u2029', '\u202f',
    '\u205f', '\u3000', '\ufeff']

/-- A character that ends a line. -/
def IsLineEnd (c : Char) : Prop := c ∈ lineEnds

instance (c : Char) : Decidable (IsLineEnd c) := inferInstanceAs (Decidable (c ∈ lineEnds))

/-- A blank character. -/
def IsBlank (c : Char) : Prop := c ∈ singleBlanks ∨ ('\u2000' ≤ c ∧ c ≤ '\u200a')

instance (c : Char) : Decidable (IsBlank c) :=
  inferInstanceAs (Decidable (c ∈ singleBlanks ∨ ('\u2000' ≤ c ∧ c ≤ '\u200a')))

/-- The characters without the blank ones at the end. -/
def trimEnd (cs : List Char) : List Char := (cs.reverse.dropWhile fun c => IsBlank c).reverse

end CaseGen.Text
