/-! # Integers of 53 significant bits

    A sum of integers is kept to 53 significant bits.  Up to `2 ^ 53` in
    size every integer is kept as it is; a larger one goes to the nearest
    multiple of the power of two that its size allows, and a half-way one
    to the even multiple. -/

namespace CaseGen.Number

/-- The quotient rounded to nearest, a tie going to the even neighbour. -/
def roundDiv (n d : Nat) : Nat :=
  let q := n / d
  let r := n % d
  if 2 * r < d ∨ (2 * r = d ∧ q % 2 = 0) then q else q + 1

/-- The natural number nearest to `n` that has at most 53 significant bits; the bound is
    `2 ^ 53`. -/
def roundNat (n : Nat) : Nat :=
  if n ≤ 9007199254740992 then n
  else
    let d := 1 <<< (n.log2 - 52)
    roundDiv n d * d

/-- The integer nearest to `n` that has at most 53 significant bits. -/
def roundInt (n : Int) : Int :=
  match n with
  | .ofNat m => Int.ofNat (roundNat m)
  | .negSucc m => -Int.ofNat (roundNat (m + 1))

/-- The rounded sum. -/
def add (a b : Int) : Int := roundInt (a + b)

end CaseGen.Number
