import CaseGen.Number.Significand

/-! # Numbers of 53 significant bits and a bounded exponent

    The numbers that values hold are a significand of at most 53 bits times
    a power of two.  A quotient that is no such number stands for the
    nearest one; a half-way quotient stands for the one with the even
    significand.

    * `Binary`          — significand and exponent
    * `Binary.nearest`  — the number that a quotient stands for
    * `Binary.IsFinite` — the number is not beyond the greatest one -/

namespace CaseGen.Number

/-- The number `significand * 2 ^ exponent`.  The significand has all its 53 bits unless
    the exponent is the least one, so a number is written in one way only. -/
structure Binary where
  significand : Nat
  exponent : Int
  deriving DecidableEq, Repr

namespace Binary

/-- The least exponent. -/
def minExponent : Int := -1074

/-- The greatest exponent of a finite number. -/
def maxExponent : Int := 971

/-- The number is not beyond the greatest one. -/
def IsFinite (x : Binary) : Prop := x.exponent ≤ maxExponent

instance (x : Binary) : Decidable x.IsFinite :=
  inferInstanceAs (Decidable (x.exponent ≤ maxExponent))

/-- The exponent of the greatest power of two that is at most `n / d`. -/
def floorLog (n d : Nat) : Int :=
  let guess : Int := Int.ofNat n.log2 - Int.ofNat d.log2
  if n <<< (-guess).toNat < d <<< guess.toNat then guess - 1 else guess

/-- The exponent at which the significand of `n / d` has 53 bits, or the least one. -/
def exponentFor (n d : Nat) : Int :=
  let e := floorLog n d - 52
  if e < minExponent then minExponent else e

/-- The number nearest to `n / d`. -/
def nearest (n d : Nat) : Binary :=
  let e := exponentFor n d
  let m := roundDiv (n <<< (-e).toNat) (d <<< e.toNat)
  -- rounding up may need one bit more, which is then zero
  if m = 1 <<< 53 then ⟨1 <<< 52, e + 1⟩ else ⟨m, e⟩

/-- The numerator of the number as a quotient. -/
def numerator (x : Binary) : Nat := x.significand <<< x.exponent.toNat

/-- The denominator of the number as a quotient. -/
def denominator (x : Binary) : Nat := 1 <<< (-x.exponent).toNat

end Binary

end CaseGen.Number
