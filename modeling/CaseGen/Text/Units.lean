import CaseGen.Text.Form
import CaseGen.Text.Order

/-! # Texts of 16-bit units

    Any units at all make a text in memory, also a surrogate without its
    partner.  No encoding in bytes has such a lone surrogate, so whoever
    writes the text puts the replacement character in its place, and texts
    that differ may be written alike.

    * `Units`    — a text as it is in memory
    * `unitsOf`  — the units of a text without lone surrogates
    * `written`  — the text that is written for units
    * `UnitLine`, `UnitItem`, `UnitName` — the forms of text, unit by unit -/

namespace CaseGen.Text

/-! ## Section 1: Units and characters -/

/-- A text of any 16-bit units. -/
abbrev Units := List UInt16

/-- The units of a text; none of them is a lone surrogate. -/
def unitsOf (s : String) : Units := (codeUnits s).map UInt16.ofNat

/-- The first half of a surrogate pair. -/
def IsHigh (u : UInt16) : Prop := 0xD800 ≤ u.toNat ∧ u.toNat < 0xDC00

/-- The second half of a surrogate pair. -/
def IsLow (u : UInt16) : Prop := 0xDC00 ≤ u.toNat ∧ u.toNat < 0xE000

instance (u : UInt16) : Decidable (IsHigh u) :=
  inferInstanceAs (Decidable (0xD800 ≤ u.toNat ∧ u.toNat < 0xDC00))

instance (u : UInt16) : Decidable (IsLow u) :=
  inferInstanceAs (Decidable (0xDC00 ≤ u.toNat ∧ u.toNat < 0xE000))

/-- The character of a unit on its own; a lone surrogate is replaced. -/
def loneChar (u : UInt16) : Char :=
  if IsHigh u ∨ IsLow u then Char.ofNat 0xFFFD else Char.ofNat u.toNat

/-- The character of a surrogate pair. -/
def pairChar (high low : UInt16) : Char :=
  Char.ofNat (0x10000 + (high.toNat - 0xD800) * 0x400 + (low.toNat - 0xDC00))

/-- The characters of units.  A surrogate pair is one character. -/
def charsOf : Units → List Char
  | [] => []
  | [u] => [loneChar u]
  | u :: v :: rest =>
    if IsHigh u ∧ IsLow v then pairChar u v :: charsOf rest else loneChar u :: charsOf (v :: rest)

/-- The text that is written for units. -/
def written (u : Units) : String := String.ofList (charsOf u)

/-! ## Section 2: Forms -/

/-- The unit is a character with the property. -/
def OfUnit (P : Char → Prop) (a : UInt16) : Prop := ∃ c : Char, c.toNat = a.toNat ∧ P c

/-- No unit is a line break. -/
def UnitLine (u : Units) : Prop := ∀ a ∈ u, ¬ OfUnit IsLineBreak a

/-- No unit is a line break or a colon. -/
def UnitItem (u : Units) : Prop := ∀ a ∈ u, ¬ OfUnit (fun c => IsLineBreak c ∨ c = ':') a

/-- The units are those of an identifier. -/
def UnitName (u : Units) : Prop :=
  (∃ a ∈ u.head?, OfUnit IsNameStart a) ∧ ∀ a ∈ u, OfUnit IsNamePart a

end CaseGen.Text
