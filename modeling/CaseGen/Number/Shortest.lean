import CaseGen.Number.Binary

/-! # The fewest digits that stand for a number

    Many decimals stand for the same number.  The one chosen to write it
    has the fewest digits; of several with that many digits it is the
    nearest to the number, and of two equally near ones the even one.

    * `Decimal`            — digits and a power of ten
    * `Decimal.toBinary`   — the number that a decimal stands for
    * `Binary.neighbours`  — the multiples of a power of ten next to a number
    * `Binary.shortest`    — the decimal chosen to write a number -/

namespace CaseGen.Number

/-- The decimal `digits * 10 ^ exponent`. -/
structure Decimal where
  digits : Nat
  exponent : Int
  deriving DecidableEq, Repr

namespace Decimal

/-- The number that a decimal stands for. -/
def toBinary (d : Decimal) : Binary :=
  Binary.nearest (d.digits * Nat.pow 10 d.exponent.toNat) (Nat.pow 10 (-d.exponent).toNat)

end Decimal

/-- The number of decimal digits. -/
def digitCount (n : Nat) : Nat := (Nat.toDigits 10 n).length

namespace Binary

/-- The least exponent of a power of ten that is above the number, which is not zero. -/
def scale (x : Binary) : Int :=
  let n := x.numerator
  let d := x.denominator
  if d ≤ n then Int.ofNat (digitCount (n / d)) else 1 - Int.ofNat (digitCount ((d - 1) / n))

/-- The multiples of `10 ^ place` next to the number, the nearest one first. -/
def neighbours (x : Binary) (place : Int) : List Decimal :=
  let n := x.numerator * Nat.pow 10 (-place).toNat
  let d := x.denominator * Nat.pow 10 place.toNat
  [⟨roundDiv n d, place⟩, ⟨n / d, place⟩, ⟨n / d + 1, place⟩]

/-- The nearest decimal of `count` digits that stands for the number, if there is one. -/
def ofCount? (x : Binary) (count : Nat) : Option Decimal :=
  (x.neighbours (x.scale - Int.ofNat count)).find? fun d => d.toBinary = x

/-- The decimal that equals the number. -/
def exact (x : Binary) : Decimal :=
  let places := (-x.exponent).toNat
  ⟨(x.significand * Nat.pow 5 places) <<< x.exponent.toNat, -Int.ofNat places⟩

/-- The most digits that are needed to tell numbers apart. -/
def maxDigits : Nat := 17

/-- The decimal with the fewest digits that stands for the number, which is not zero. -/
def shortest (x : Binary) : Decimal :=
  (((List.range maxDigits).map (· + 1)).findSome? x.ofCount?).getD x.exact

end Binary

end CaseGen.Number
