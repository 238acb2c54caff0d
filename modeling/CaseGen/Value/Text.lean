import CaseGen.Number.Notation
import CaseGen.Value.Basic

/-! # Text of a value

    The text shown for a value that a producer threw.  Lists are joined
    with commas, null inside a list is empty, and an object shows only that
    it is one.  An object with a field `toString` of its own has no text,
    because that field is not a way to write it, and neither has a list
    that holds such an object. -/

namespace CaseGen.Value

/-- The text of the number that `m / 10 ^ e` stands for. -/
def numberText (m : Int) (e : Nat) : String :=
  (Number.text? m e).getD (if m < 0 then "-Infinity" else "Infinity")

mutual

/-- The text of a value, or `none` where it has no text. -/
def text? : Value → Option String
  | null => some "null"
  | bool b => some (if b then "true" else "false")
  | num m e => some (numberText m e)
  | str s => some s
  | arr items => (itemTexts? items).map (",".intercalate ·)
  | obj fields => if (fields.lookup "toString").isSome then none else some "[object Object]"

/-- The texts of the items of a list, null being empty. -/
def itemTexts? : List Value → Option (List String)
  | [] => some []
  | null :: rest => (itemTexts? rest).map ("" :: ·)
  | v :: rest => (text? v).bind fun s => (itemTexts? rest).map (s :: ·)

end

end CaseGen.Value
