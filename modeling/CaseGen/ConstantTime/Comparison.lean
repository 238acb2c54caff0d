import CaseGen.ConstantTime.Pattern
import CaseGen.Target.Class
import CaseGen.Text.Hex

/-! # Cases for memory comparison

    A case compares two buffers.  It expects `0` where they agree over the
    length of the first one, and `1` where they differ.

    * `firstDifference`  — where the first buffer departs from the second
    * `comparison`       — the case of two buffers
    * `comparisonCases`  — the cases of the suite: equal buffers, then buffers that
                           differ in the first and in the last byte -/

namespace CaseGen.ConstantTime

/-- The first position of `a` at which `b` has another byte or none. -/
def firstDifference : (a b : List UInt8) → Option Nat
  | [], _ => none
  | _ :: _, [] => some 0
  | x :: a, y :: b => if x = y then (firstDifference a b).map (· + 1) else some 0

/-- The case that compares two buffers. -/
def comparison (a b : List UInt8) : CaseSpec where
  detail := toString a.length ++
    match firstDifference a b with
    | none => " bytes equal"
    | some i => " bytes differ at " ++ toString i
  arguments := [Text.quotedHex a, Text.quotedHex b,
    if (firstDifference a b).isNone then "0" else "1"]

/-- The buffer with some bits of the byte at a position flipped. -/
def flip (bytes : List UInt8) (i : Nat) (bits : UInt8) : List UInt8 := bytes.modify i (· ^^^ bits)

/-- The cases for buffers of one length. -/
def comparisonCasesOf (length : Nat) : List CaseSpec :=
  let a := patternBytes length 0
  [comparison a a, comparison a (flip a 0 0x01)] ++
    if length > 1 then [comparison a (flip a (length - 1) 0x80)] else []

/-- The cases of the suite. -/
def comparisonCases : List CaseSpec := [1, 4, 16].flatMap comparisonCasesOf

end CaseGen.ConstantTime
