/-! # Texts a few edits apart

    An edit puts in, takes away or replaces one unit, or swaps two
    neighbours; no unit is edited twice.

    * `within n a b`      — at most `n` edits lead from `a` to `b`
    * `editDistance? n a b` — the least number of edits, if it is at most `n` -/

namespace CaseGen.Text

/-- Whether one edit more than `fewer` allows for is enough.  Units that agree may be
    kept; otherwise the edit is spent on the first units. -/
def withinOneMore (fewer : List Nat → List Nat → Bool) : List Nat → List Nat → Bool
  | [], [] => true
  | [], _ :: b => fewer [] b
  | _ :: a, [] => fewer a []
  | x :: a, y :: b =>
    (x = y && withinOneMore fewer a b) || fewer a (y :: b) || fewer (x :: a) b || fewer a b ||
      match a, b with
      | y' :: a, x' :: b => x = x' && y = y' && fewer a b
      | _, _ => false

/-- At most so many edits lead from the first list of units to the second. -/
def within : Nat → List Nat → List Nat → Bool
  | 0 => fun a b => a = b
  | n + 1 => withinOneMore (within n)

/-- The least number of edits, if it is at most `limit`. -/
def editDistance? (limit : Nat) (a b : List Nat) : Option Nat :=
  (List.range (limit + 1)).find? fun n => within n a b

end CaseGen.Text
