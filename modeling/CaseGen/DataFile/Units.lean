import CaseGen.DataFile

/-! # Data files of any units

    The texts of a test case may hold lone surrogates.  The case is checked
    and put into lines unit by unit, and it is only when the lines are
    written that lone surrogates are replaced.

    * `UnitRecord`          — a test case whose texts are any units
    * `UnitRecord.Complete` — each of its texts keeps to the line format
    * `UnitRecord.written`  — the record that is written for it
    * `fileOfUnits`         — the bytes of a complete data file -/

namespace CaseGen

open Text

/-- A test case whose texts are any units. -/
structure UnitRecord where
  description : Units
  function : Units
  arguments : List Units := []
  dependencies : List Units := []
  comments : List Units := []
  deriving DecidableEq

/-- The units of lines, each ended by a line feed. -/
def unitsOfLines (lines : List Units) : Units := lines.flatMap (· ++ unitsOf "\n")

namespace UnitRecord

/-- What a check demands of a test case, unit by unit. -/
structure Complete (r : UnitRecord) : Prop where
  description_ne_nil : r.description ≠ []
  description_line : UnitLine r.description
  function_name : UnitName r.function
  argument_line : ∀ u ∈ r.arguments, UnitLine u
  dependency_ne_nil : ∀ u ∈ r.dependencies, u ≠ []
  dependency_item : ∀ u ∈ r.dependencies, UnitItem u
  comment_line : ∀ u ∈ r.comments, UnitLine u

/-- The lines of a test case. -/
def lines (r : UnitRecord) : List Units :=
  (if r.comments.isEmpty then [] else [] :: r.comments.map (unitsOf "# " ++ ·)) ++
    [[], r.description] ++
    (if r.dependencies.isEmpty then []
      else [unitsOf "depends_on:" ++ (unitsOf ":").intercalate r.dependencies]) ++
    [r.function ++ (unitsOf ":" ++ (unitsOf ":").intercalate r.arguments)]

/-- The record that is written for a test case. -/
def written (r : UnitRecord) : Record where
  description := Text.written r.description
  function := Text.written r.function
  arguments := r.arguments.map Text.written
  dependencies := r.dependencies.map Text.written
  comments := r.comments.map Text.written

end UnitRecord

/-- The bytes of the data file that a caller writes for test cases, which are encoded one after
    the other. -/
def fileOfUnits (caller : Units) (records : List UnitRecord) : Files.Bytes :=
  Files.bytesOfUnits (unitsOf "# Automatically generated by " ++
      (caller ++ (unitsOf ". Do not edit!" ++ unitsOf "\n"))) ++
    records.flatMap (fun r => Files.bytesOfUnits (unitsOfLines r.lines)) ++
    Files.bytesOfUnits (unitsOf footerText)

end CaseGen
