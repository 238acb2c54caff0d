import CaseGen.Check.Rule
import CaseGen.Failure

/-! # Generator options

    Options come untyped: an optional directory and an optional caller,
    which may not be empty.  Other fields are let through.  Absent options
    and null count as an empty object.

    * `checkOptionsValue` — the object itself, or its issues
    * `Options.resolve`   — directory and caller, or the failure -/

namespace CaseGen

/-- Where data files go, and the name that their header carries if one is given. -/
structure Options where
  directory : String
  caller : Option String
  deriving DecidableEq, Repr

namespace Options

/-- The directory of the data files unless another one is given. -/
def defaultDirectory : String := "tests/suites"

/-- A directory may be any text. -/
def directoryRule : TextRule where
  checks := []

/-- A caller is a non-empty text. -/
def callerRule : TextRule where
  checks := [⟨fun s => s ≠ "", .tooShort 1, "String must contain at least 1 character(s)"⟩]

/-- The issues of an options value, directory before caller. -/
def issues (v : Value) : List Issue :=
  match v with
  | .obj _ =>
    directoryRule.optionalIssues [.field "directory"] (v.field? "directory") ++
    callerRule.optionalIssues [.field "caller"] (v.field? "caller")
  | _ => [shapeIssue [] .object (some v) "Required"]

/-- The text in a field, if the field is there and holds one. -/
def textField? (v : Value) (name : String) : Option String :=
  match v.field? name with
  | some (.str s) => some s
  | _ => none

/-- The options as they are used. -/
def ofValue (v : Value) : Options where
  directory := (textField? v "directory").getD defaultDirectory
  caller := textField? v "caller"

/-- The empty object in place of absent options and of null. -/
def orEmpty : Option Value → Value
  | none | some .null => .obj []
  | some v => v

/-- The options of a value, or the failure that lists all its issues. -/
def resolve (v : Option Value) : Except Failure Options :=
  let v := orEmpty v
  match issues v with
  | first :: rest => .error (.badOptions first rest)
  | [] => .ok (ofValue v)

end Options

/-- The fields of an options value, or its issues.  The reserved field `__proto__` is
    not kept. -/
def checkOptionsValue (v : Option Value) : Except (List Issue) Value :=
  match v with
  | none => .error [shapeIssue [] .object none "Required"]
  | some v =>
    match Options.issues v with
    | [] =>
      match v with
      | .obj fields => .ok (.obj (fields.filter fun (name, _) => name ≠ "__proto__"))
      | v => .ok v
    | issues => .error issues

end CaseGen
