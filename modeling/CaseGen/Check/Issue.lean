import CaseGen.Value.Basic

/-! # Issues

    What a check found wrong, and where.  A place is a path of field names
    and list positions from the checked value downwards. -/

namespace CaseGen

/-- One step of a path into a value. -/
inductive Place where
  | field (name : String)
  | index (i : Nat)
  deriving DecidableEq, Repr

/-- The text of a step, as it stands in messages. -/
def Place.text : Place → String
  | .field name => name
  | .index i => toString i

/-- A step as a value. -/
def Place.toValue : Place → Value
  | .field name => .str name
  | .index i => .ofNat i

/-- What is wrong with a value. -/
inductive Fault where
  /-- The value has another shape than its place demands. -/
  | wrongShape (expected received : Shape)
  /-- The text has fewer characters than it needs. -/
  | tooShort (minimum : Nat)
  /-- The text does not have the form that its place demands. -/
  | badForm
  deriving DecidableEq, Repr

/-- A fault at a place, with the message that explains it. -/
structure Issue where
  path : List Place
  fault : Fault
  message : String
  deriving DecidableEq, Repr

namespace Issue

/-- The issue as an object of its own. -/
def toValue (i : Issue) : Value :=
  let path := ("path", Value.arr (i.path.map Place.toValue))
  let message := ("message", Value.str i.message)
  match i.fault with
  | .wrongShape expected received =>
    .obj [("code", .str "invalid_type"), ("expected", .str expected.name),
      ("received", .str received.name), path, message]
  | .tooShort minimum =>
    .obj [("code", .str "too_small"), ("minimum", .ofNat minimum), ("type", .str "string"),
      ("inclusive", .bool true), ("exact", .bool false), message, path]
  | .badForm =>
    .obj [("validation", .str "regex"), ("code", .str "invalid_string"), message, path]

theorem field_path (i : Issue) :
    i.toValue.field? "path" = some (.arr (i.path.map Place.toValue)) := by
  unfold toValue
  cases i.fault <;> rfl

theorem field_message (i : Issue) : i.toValue.field? "message" = some (.str i.message) := by
  unfold toValue
  cases i.fault <;> rfl

/-- The steps of the path and the message in one line, separated by colons. -/
def located (i : Issue) : String :=
  ": ".intercalate (i.path.map Place.text ++ [i.message])

end Issue

end CaseGen
