import CaseGen.ConstantTime.Comparison
import CaseGen.ConstantTime.Selection
import CaseGen.ConstantTime.SizeMask
import CaseGen.Suite
import CaseGen.Target.Generator

/-! # The constant-time suite

    Two data files test constant-time functions.  The cases of the first
    come from the classes registered below `family`; those of the second
    depend on the word sizes and are made by `sizeMasks`, which is not
    registered.

    * `family`, `comparisons`, `selections`, `sizeMasks` — the classes
    * `registry`  — the registered ones
    * `table`     — the two targets -/

namespace CaseGen.ConstantTime

/-! ## Section 1: Classes -/

/-- The group of the classes of the first data file. -/
def family : TargetClass := .sub 0 .base { name := "ConstantTimeTarget", isGroup := true }

/-- The class of memory comparisons. -/
def comparisons : TargetClass :=
  .sub 1 family {
    name := "CtMemcmpTarget"
    title := some "Constant-time memcmp"
    function := some "ct_memcmp"
    emissions := some (comparisonCases.map .make) }

/-- The class of selections. -/
def selections : TargetClass :=
  .sub 2 family {
    name := "CtUintIfTarget"
    title := some "Constant-time select"
    function := some "ct_uint_if"
    emissions := some (selectionCases.map .make) }

/-- The class of size masks. -/
def sizeMasks : TargetClass :=
  .sub 3 .base {
    name := "CtSizeMaskGeTarget"
    title := some "Constant-time size mask (>=)"
    function := some "ct_size_mask_ge" }

/-- The classes of the suite. -/
def classes : List TargetClass := [family, comparisons, selections, sizeMasks]

/-- The registry of the suite, without instances. -/
def registry : Registry :=
  (({} : Registry).registerAll [family, comparisons, selections]).toOption.getD {}

/-! ## Section 2: Targets -/

/-- The target of the registered classes. -/
def familyTarget : String := "test_suite_constant_time.generated"

/-- The target of the size masks. -/
def sizeMaskTarget : String := "test_suite_constant_time_mask.generated"

/-- The base name of the data file that the cases of a class are written to: the one
    given for the nearest ancestor, and none for a class outside the suite. -/
def dataFileOf : TargetClass → String
  | .base => ""
  | .sub id parent d =>
    if .sub id parent d = family then familyTarget
    else if .sub id parent d = sizeMasks then sizeMaskTarget
    else dataFileOf parent

/-- A generator of the size masks for word sizes. -/
def sizeMaskGenerator (l : List WordSize) : Generator :=
  Generator.ofEmissions sizeMasks ((sizeMaskCases l).map .make)

/-- The events of the size masks for word sizes. -/
def sizeMaskEvents (l : List WordSize) : List Event := (sizeMaskCases l).map (.make sizeMasks)

/-- The targets of the suite. -/
def table : TargetTable (List WordSize) := [
  (familyTarget, fun _ => .ofEvents (registry.events family)),
  (sizeMaskTarget, fun l => .ofEvents (sizeMaskEvents l))]

end CaseGen.ConstantTime
