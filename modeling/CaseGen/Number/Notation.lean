import CaseGen.Number.Shortest

/-! # How numbers are written

    A number is written with the fewest digits that stand for it: digit by
    digit from a millionth up to below `10 ^ 21`, and with a signed exponent
    outside that range.  Zero has no sign.

    * `Decimal.text` — a decimal as it is written
    * `text?`        — the number that a decimal stands for as it is written -/

namespace CaseGen.Number

/-- The most digits before the point of a number written digit by digit. -/
def maxWholeDigits : Int := 21

/-- The most zeros right after the point of a number written digit by digit. -/
def maxLeadingZeros : Int := 5

/-- Digits with a point after the first one, and the exponent behind them. -/
def scientific (digits : List Char) (exponent : Int) : List Char :=
  let (whole, fraction) := digits.splitAt 1
  whole ++ (if fraction.isEmpty then [] else '.' :: fraction) ++
    'e' :: (if exponent < 0 then '-' else '+') :: Nat.toDigits 10 exponent.natAbs

/-- Digits of which `point` stand before the point; zeros fill up what is missing. -/
def positional (digits : List Char) (point : Int) : List Char :=
  let whole := digits.take point.toNat
  let fraction := digits.drop point.toNat
  let zeros (n : Nat) := List.replicate n '0'
  if point ≤ 0 then '0' :: '.' :: (zeros (-point).toNat ++ fraction)
  else
    whole ++ zeros (point.toNat - digits.length) ++
      if fraction.isEmpty then [] else '.' :: fraction

/-- A decimal other than zero as it is written.  Zeros at the end of its digits do not
    count. -/
def Decimal.text (d : Decimal) : String :=
  let all := Nat.toDigits 10 d.digits
  let digits := (all.reverse.dropWhile (· = '0')).reverse
  let point := Int.ofNat all.length + d.exponent
  String.ofList <|
    if point > maxWholeDigits ∨ -point > maxLeadingZeros then scientific digits (point - 1)
    else positional digits point

/-- The number that `m / 10 ^ e` stands for as it is written, unless it is beyond the
    greatest one. -/
def text? (m : Int) (e : Nat) : Option String :=
  let x := Binary.nearest m.natAbs (Nat.pow 10 e)
  if x.significand = 0 then some "0"
  else if x.IsFinite then some ((if m < 0 then "-" else "") ++ x.shortest.text)
  else none

end CaseGen.Number
