import CaseGen.Check.Issue
import CaseGen.Files.Error
import CaseGen.Value.Text

/-! # Failures

    Everything that can stop the work, by cause, and the report that the
    library gives of the causes that are its own.

    * `Failure`         — the causes
    * `Report`          — name, code, message and context of a problem
    * `Failure.report?` — the report of a cause, where the library has one
    * `Failure.message` — one line of text for a cause -/

namespace CaseGen

/-! ## Section 1: Reports -/

/-- The families of problems that the library reports. -/
inductive Report.Kind where
  /-- A problem that may have a code of its own. -/
  | general (code : Option String)
  /-- A malformed test case or registration. -/
  | validation
  /-- Options that cannot be used. -/
  | configuration
  /-- A target name that is not in the table. -/
  | unknownTarget
  deriving DecidableEq, Repr

namespace Report.Kind

/-- The name of a family. -/
def name : Report.Kind → String
  | general _ => "TestGenError"
  | validation => "ValidationError"
  | configuration => "ConfigError"
  | unknownTarget => "TargetNotFoundError"

/-- The code of a family, if it has one. -/
def code? : Report.Kind → Option String
  | general code => code
  | validation => some "VALIDATION_ERROR"
  | configuration => some "CONFIG_ERROR"
  | unknownTarget => some "TARGET_NOT_FOUND"

end Report.Kind

/-- A problem with its message and, where given, the fields of its context. -/
structure Report where
  kind : Report.Kind
  message : String
  context : Option (List (String × Value)) := none

namespace Report

/-- The report of a target name that is not in the table. -/
def ofUnknownTarget (name : String) : Report where
  kind := .unknownTarget
  message := "Target not found: " ++ name
  context := some [("targetName", .str name)]

/-- The report as an object for a log; an absent code and an absent context are left out. -/
def toValue (r : Report) : Value :=
  .obj ([("name", .str r.kind.name)] ++ (r.kind.code?.map fun c => ("code", Value.str c)).toList ++
    [("message", .str r.message)] ++
    (r.context.map fun fields => ("context", Value.obj fields)).toList)

end Report

/-! ## Section 2: Causes -/

/-- Why an operation stopped. -/
inductive Failure where
  /-- A record breaks the rules of the format; there is at least one issue. -/
  | badRecord (description : Option String) (first : Issue) (rest : List Issue)
  /-- The class is registered already. -/
  | alreadyRegistered (name : String)
  /-- A sibling class is registered under the same name. -/
  | duplicateName (name : String)
  /-- The options break their rules; there is at least one issue. -/
  | badOptions (first : Issue) (rest : List Issue)
  /-- No target of this name is in the table. -/
  | unknownTarget (name : String)
  /-- The file system refused an operation. -/
  | file (cause : Files.FileError)
  /-- A buffer cannot have this length. -/
  | negativeLength (length : Int)
  /-- There is no room for a buffer of the wanted length. -/
  | noRoom
  /-- A producer stopped with a message. -/
  | stopped (message : String)
  /-- A producer stopped with a bare value. -/
  | thrown (value : Value)
  /-- A value that a producer threw has no text. -/
  | noText

namespace Failure

/-- The issues of a check as a field of a context. -/
def issuesField (first : Issue) (rest : List Issue) : String × Value :=
  ("issues", .arr ((first :: rest).map Issue.toValue))

/-- The report of a cause that is the library's own. -/
def report? : Failure → Option Report
  | badRecord description first rest =>
    some ⟨.validation, first.message,
      some ((description.map fun d => ("description", Value.str d)).toList ++
        [issuesField first rest])⟩
  | alreadyRegistered name =>
    some ⟨.validation, "Target class already registered: " ++ name, some [("name", .str name)]⟩
  | duplicateName name =>
    some ⟨.validation, "Duplicate target class name: " ++ name, some [("name", .str name)]⟩
  | badOptions first rest =>
    some ⟨.configuration, "Invalid generator options: " ++ first.located,
      some [issuesField first rest]⟩
  | unknownTarget name => some (.ofUnknownTarget name)
  | _ => none

/-- The message of a cause, or `none` for a thrown value that has no text. -/
def message? : Failure → Option String
  | file cause => some cause.message
  | negativeLength length => some ("Invalid typed array length: " ++ toString length)
  | noRoom => some "Array buffer allocation failed"
  | stopped message => some message
  | thrown value => value.text?
  | noText => some "Cannot convert object to primitive value"
  | f => f.report?.map Report.message

/-- The line that reports a message to the user. -/
def errorLine (message : String) : String := "Error: " ++ message

end Failure

end CaseGen
