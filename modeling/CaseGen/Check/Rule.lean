import CaseGen.Check.Issue

/-! # Rules for values

    A rule says what a place of a value may hold.  Text is held to a list
    of checks, each of which is made whatever the others say; a list of
    texts is held to the same checks item by item.  A value of the wrong
    shape gives one issue and no check of it is made. -/

namespace CaseGen

/-- One condition on a text, with the fault and the message of a text that fails it. -/
structure TextCheck where
  holds : String → Bool
  fault : Fault
  message : String

/-- The checks of a text, and the message if there is no text at all. -/
structure TextRule where
  absent : String := "Required"
  checks : List TextCheck

/-- The issue of a value with another shape than expected. -/
def shapeIssue (path : List Place) (expected : Shape) (received : Option Value)
    (absent : String) : Issue where
  path
  fault := .wrongShape expected (Shape.of received)
  message :=
    match received with
    | none => absent
    | some v => "Expected " ++ expected.name ++ ", received " ++ v.shape.name

namespace TextRule

/-- The issues of a text, in the order of the checks. -/
def textIssues (rule : TextRule) (path : List Place) (s : String) : List Issue :=
  rule.checks.filterMap fun c => if c.holds s then none else some ⟨path, c.fault, c.message⟩

/-- The issues of a place that must hold a text. -/
def issues (rule : TextRule) (path : List Place) : Option Value → List Issue
  | some (.str s) => rule.textIssues path s
  | v => [shapeIssue path .string v rule.absent]

/-- The issues of a place that may hold a text or nothing. -/
def optionalIssues (rule : TextRule) (path : List Place) : Option Value → List Issue
  | none => []
  | v => rule.issues path v

/-- The issues of a place that must hold a list of texts, by position. -/
def listIssues (rule : TextRule) (path : List Place) : Option Value → List Issue
  | some (.arr items) =>
    items.zipIdx.flatMap fun (v, i) => rule.issues (path ++ [.index i]) (some v)
  | v => [shapeIssue path .array v "Required"]

end TextRule

end CaseGen
