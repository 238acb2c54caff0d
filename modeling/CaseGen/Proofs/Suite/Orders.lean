import CaseGen.Proofs.Suite.Counts
import CaseGen.Proofs.Suite.Store
import CaseGen.Proofs.Target.Description
import CaseGen.Proofs.Text.Units

/-! # The order of calls

    What a call writes goes by the counts that it finds, and every call
    counts the instances that it makes, also one that fails.  How many
    these are does not depend on the numbers they get.  So the files of a
    target go by the calls for this target alone as long as no other
    target makes instances of the same classes.

    * `taken`             — the steps that a call takes
    * `generate_registry` — what a call counts, whether it succeeds or not
    * `outcome?`          — what a call writes, by the counts that it finds
    * `Suite.OwnClasses`  — no class is shared by two targets
    * `outcomes_filter`   — the files of a target go by its own calls
    * `store_keeps_last_files` — what any sequence of calls leaves -/

namespace CaseGen

open Files

/-! ## Section 1: The steps that a call takes -/

/-- The step gives up. -/
def givesUp : Step → Bool
  | .fail _ => true
  | _ => false

/-- The step yields no test case, or one that can be written.  The number of an instance has no
    part in that, so it is the first one here. -/
def Step.writable : Step → Bool
  | .yield d => d.lines.isOk
  | .construct c spec => (({} : Registry).construct c spec).1.draft.lines.isOk
  | _ => true

/-- The steps that are taken: those before the first that gives up and, unless the drafts are only
    collected, none after the first whose test case cannot be written. -/
def taken (collected : Bool) : List Step → List Step
  | [] => []
  | s :: rest =>
    if givesUp s then []
    else if collected || s.writable then s :: taken collected rest
    else [s]

namespace Workspace

variable {w w' : Workspace} {s : Step} {l : List Step} {filename caller : String}

end Workspace

namespace Suite

variable {α : Type} {s : Suite α} {w : Workspace} {t₀ : Tree} {k : String} {a : α}
  {r r' : Registry} {h : List (String × Bytes)}

/-! ## Section 2: What a call counts -/

/-- The classes of the instances that a call makes, once for each instance. -/
def counted (s : Suite α) (k : String) (a : α) : List TargetClass :=
  match s.table.lookup k with
  | some producer => classesOf (taken (producer a).eager (producer a).steps)
  | none => []

/-- The path text that is written for a name in a directory is that of the name that is written, in
    the directory that is written. -/
theorem written_fileNameOfUnits {directory : Text.Units}
    (same : s.directory = Text.written directory) (name : Text.Units) :
    Text.written (fileNameOfUnits directory name) = s.fileName (Text.written name) := by
  have ends : s.directory.toList.getLast? = some '/' ↔ directory.getLast? = some 0x2F := by
    rw [same, Text.getLast?_written_iff]
  have empty : s.directory = "" ↔ directory = [] := by
    rw [same, Text.written_eq_empty_iff]
  unfold fileNameOfUnits fileName
  simp only [ends, empty]
  split
  next joins =>
    rw [same]
    rcases joins with rfl | slash
    · exact (Text.written_append_unitsOf name ".data").trans String.empty_append.symm
    · -- the slash stands between the units of the directory and those of the name
      obtain ⟨front, rfl⟩ := List.getLast?_eq_some_iff.mp slash
      show Text.written (front ++ Text.unitsOf "/" ++ (name ++ Text.unitsOf ".data")) =
        Text.written (front ++ Text.unitsOf "/") ++ (Text.written name ++ ".data")
      rw [List.append_assoc, Text.written_append_unitsOf_append (by decide),
        Text.written_append_unitsOf, Text.written_append_unitsOf, String.append_assoc]
  next =>
    rw [same, Text.written_append_unitsOf_append (by decide), Text.written_append_unitsOf,
      String.append_assoc]

end Suite

end CaseGen
