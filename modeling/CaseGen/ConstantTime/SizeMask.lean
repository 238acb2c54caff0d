import CaseGen.Target.Class

/-! # Cases for size masks

    A case compares two sizes of a machine word.  It expects a word of all
    ones where the first size is at least the second, and zero otherwise,
    and it depends on the symbol of its word size. -/

namespace CaseGen.ConstantTime

/-- A machine word: its width, and the symbol defined where words have that width. -/
structure WordSize where
  bits : Nat
  dependency : String
  deriving DecidableEq, Repr

/-- The word sizes of the suite. -/
def wordSizes : List WordSize := [⟨32, "HAVE_INT32"⟩, ⟨64, "HAVE_INT64"⟩]

/-- The word of all ones. -/
def WordSize.max (w : WordSize) : Int := ((1 <<< w.bits : Nat) : Int) - 1

/-- The mask expected for two sizes. -/
def mask (x y : Int) (w : WordSize) : Int := if x ≥ y then w.max else 0

/-- The case that compares two sizes. -/
def sizeMask (x y : Int) (w : WordSize) : CaseSpec where
  detail := toString w.bits ++ "-bit " ++ toString x ++ " >= " ++ toString y
  arguments := [x, y, mask x y w].map toString
  dependencies := [w.dependency]

/-- The pairs of sizes that are compared for a word size. -/
def sizePairs (w : WordSize) : List (Int × Int) :=
  [(0, 0), (1, 0), (0, 1), (w.max, 0), (w.max - 1, w.max)]

/-- The cases for word sizes, in their order. -/
def sizeMaskCases (l : List WordSize) : List CaseSpec :=
  l.flatMap fun w => (sizePairs w).map fun (x, y) => sizeMask x y w

end CaseGen.ConstantTime
