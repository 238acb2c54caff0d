import CaseGen.Target.Class

/-! # Cases for selection

    A case selects between two numbers by a condition, which holds unless
    it is zero.  Its last argument is the number expected. -/

namespace CaseGen.ConstantTime

/-- The number that a condition selects. -/
def selected (condition ifTrue ifFalse : Int) : Int := if condition ≠ 0 then ifTrue else ifFalse

/-- The case that selects between two numbers. -/
def selection (condition ifTrue ifFalse : Int) : CaseSpec where
  detail := "condition " ++ toString condition
  arguments := [condition, ifTrue, ifFalse, selected condition ifTrue ifFalse].map toString

/-- The cases of the suite: a false condition, the least true one, and one with the top bit only. -/
def selectionCases : List CaseSpec :=
  [0, 1, 0x80000000].map fun condition => selection condition 0x12345678 0x9abcdef0

end CaseGen.ConstantTime
