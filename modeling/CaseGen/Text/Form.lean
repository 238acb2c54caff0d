/-! # Forms of text

    The conditions that keep a data file line-oriented: text that stays on
    one line, text without a separator, and names of test functions. -/

namespace CaseGen.Text

/-- A line feed or a carriage return. -/
def IsLineBreak (c : Char) : Prop := c = '\n' ∨ c = '\r'

instance (c : Char) : Decidable (IsLineBreak c) :=
  inferInstanceAs (Decidable (c = '\n' ∨ c = '\r'))

/-- The text holds no line break. -/
def SingleLine (s : String) : Prop := ∀ c ∈ s.toList, ¬ IsLineBreak c

instance (s : String) : Decidable (SingleLine s) :=
  List.decidableBAll (fun c => ¬ IsLineBreak c) s.toList

/-- The text holds no line break and no colon, so it is one item of a joined list. -/
def SingleItem (s : String) : Prop := ∀ c ∈ s.toList, ¬ IsLineBreak c ∧ c ≠ ':'

instance (s : String) : Decidable (SingleItem s) :=
  List.decidableBAll (fun c => ¬ IsLineBreak c ∧ c ≠ ':') s.toList

/-- A letter of the Latin alphabet or an underscore. -/
def IsNameStart (c : Char) : Prop := c.isAlpha ∨ c = '_'

instance (c : Char) : Decidable (IsNameStart c) :=
  inferInstanceAs (Decidable (c.isAlpha ∨ c = '_'))

/-- A name start or a decimal digit. -/
def IsNamePart (c : Char) : Prop := IsNameStart c ∨ c.isDigit

instance (c : Char) : Decidable (IsNamePart c) :=
  inferInstanceAs (Decidable (IsNameStart c ∨ c.isDigit))

/-- An identifier: a name start followed by name parts. -/
def Identifier (s : String) : Prop :=
  ∃ c ∈ s.toList.head?, IsNameStart c ∧ ∀ d ∈ s.toList, IsNamePart d

instance (s : String) : Decidable (Identifier s) :=
  match h : s.toList.head? with
  | none => isFalse (by simp [Identifier, h])
  | some c =>
    letI := List.decidableBAll IsNamePart s.toList
    decidable_of_iff (IsNameStart c ∧ ∀ d ∈ s.toList, IsNamePart d) (by simp [Identifier, h])

end CaseGen.Text
