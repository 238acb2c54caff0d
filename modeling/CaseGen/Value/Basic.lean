/-! # Untyped values

    Options and thrown values arrive without a type.  A value is null, a
    truth value, a number given by its decimal digits, a text, a list, or
    an object, whose fields keep the order in which they were given. -/

namespace CaseGen

/-- An untyped value.  The number `num m e` is the one that `m / 10 ^ e` stands for. -/
inductive Value where
  | null
  | bool (b : Bool)
  | num (mantissa : Int) (exponent : Nat)
  | str (s : String)
  | arr (items : List Value)
  | obj (fields : List (String × Value))
  deriving Inhabited

/-- The kinds of value that a check tells apart, and the absence of one. -/
inductive Shape where
  | missing | null | boolean | number | string | array | object
  deriving DecidableEq, Repr

/-- The word for a shape in messages. -/
def Shape.name : Shape → String
  | .missing => "undefined"
  | .null => "null"
  | .boolean => "boolean"
  | .number => "number"
  | .string => "string"
  | .array => "array"
  | .object => "object"

namespace Value

/-- The shape of a value that is there. -/
def shape : Value → Shape
  | null => .null
  | bool _ => .boolean
  | num _ _ => .number
  | str _ => .string
  | arr _ => .array
  | obj _ => .object

/-- The field of an object; any other value has none. -/
def field? (name : String) : Value → Option Value
  | obj fields => fields.lookup name
  | _ => none

/-- A natural number as a value. -/
def ofNat (n : Nat) : Value := num n 0

/-- A list of texts as a value. -/
def ofStrings (l : List String) : Value := arr (l.map str)

end Value

/-- The shape of a value that may be absent. -/
def Shape.of : Option Value → Shape
  | none => .missing
  | some v => v.shape

end CaseGen
