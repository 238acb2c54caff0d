import CaseGen.Check.Rule
import CaseGen.Failure
import CaseGen.TestCase.Basic
import CaseGen.Text.Form

/-! # Checking a test case

    A case may be written once its description is a non-empty line, its
    function is an identifier, its arguments and comments are lines and
    its dependencies are non-empty items of a joined list.  All issues are
    reported, field by field in this order and item by item in a list.

    * `CaseFields`        — the five fields of a case, of any shape or absent
    * `CaseFields.issues` — what is wrong with them
    * `Draft.check`       — the record of a draft, if nothing is wrong -/

namespace CaseGen

/-! ## Section 1: Rules of the fields -/

namespace CaseRule

open Text

/-- The description is a non-empty line. -/
def description : TextRule where
  absent := "Test case is missing a description"
  checks := [
    ⟨fun s => s ≠ "", .tooShort 1, "Description must not be empty"⟩,
    ⟨fun s => SingleLine s, .badForm, "Description must be a single line"⟩]

/-- The function is an identifier. -/
def function : TextRule where
  absent := "Test case is missing a function"
  checks := [⟨fun s => Identifier s, .badForm, "Function must be an identifier"⟩]

/-- An argument is a line. -/
def argument : TextRule where
  checks := [⟨fun s => SingleLine s, .badForm, "Argument must be a single line"⟩]

/-- A dependency is a non-empty item of a joined list. -/
def dependency : TextRule where
  checks := [
    ⟨fun s => s ≠ "", .tooShort 1, "String must contain at least 1 character(s)"⟩,
    ⟨fun s => SingleItem s, .badForm, "Dependency must be a single token"⟩]

/-- A comment is a line. -/
def comment : TextRule where
  checks := [⟨fun s => SingleLine s, .badForm, "Comment must be a single line"⟩]

end CaseRule

/-! ## Section 2: Fields of any shape -/

/-- The fields of a test case before anything is known of their shapes. -/
structure CaseFields where
  description : Option Value
  function : Option Value
  arguments : Option Value
  dependencies : Option Value
  comments : Option Value

namespace CaseFields

/-- The fields of an object; other fields are not looked at. -/
def ofValue (v : Value) : CaseFields where
  description := v.field? "description"
  function := v.field? "function"
  arguments := v.field? "arguments"
  dependencies := v.field? "dependencies"
  comments := v.field? "comments"

/-- The fields of a draft. -/
def ofDraft (d : Draft) : CaseFields where
  description := d.description.map .str
  function := d.function.map .str
  arguments := some (.ofStrings d.arguments)
  dependencies := some (.ofStrings d.dependencies)
  comments := some (.ofStrings d.comments)

/-- The issues of all fields, in the order of the fields. -/
def issues (c : CaseFields) : List Issue :=
  CaseRule.description.issues [.field "description"] c.description ++
  CaseRule.function.issues [.field "function"] c.function ++
  CaseRule.argument.listIssues [.field "arguments"] c.arguments ++
  CaseRule.dependency.listIssues [.field "dependencies"] c.dependencies ++
  CaseRule.comment.listIssues [.field "comments"] c.comments

/-- The fields that are there, as an object. -/
def toValue (c : CaseFields) : Value :=
  .obj ([("description", c.description), ("function", c.function), ("arguments", c.arguments),
    ("dependencies", c.dependencies), ("comments", c.comments)].filterMap
      fun (name, v) => v.map (name, ·))

end CaseFields

/-- The five fields of an untyped case, or the issues that keep it from being one. -/
def checkCaseValue (v : Option Value) : Except (List Issue) Value :=
  match v with
  | some (.obj l) =>
    let fields := CaseFields.ofValue (.obj l)
    if fields.issues.isEmpty then .ok fields.toValue else .error fields.issues
  | v => .error [shapeIssue [] .object v "Required"]

/-! ## Section 3: Drafts -/

namespace Draft

/-- What is wrong with a draft. -/
def issues (d : Draft) : List Issue := (CaseFields.ofDraft d).issues

/-- The record that a draft describes, or the failure that lists all its issues. -/
def check (d : Draft) : Except Failure Record :=
  match d.issues with
  | first :: rest => .error (.badRecord d.description first rest)
  | [] =>
    -- without issues both texts are there, so their defaults are never taken
    .ok {
      description := d.description.getD ""
      function := d.function.getD ""
      arguments := d.arguments
      dependencies := d.dependencies
      comments := d.comments }

end Draft

end CaseGen
