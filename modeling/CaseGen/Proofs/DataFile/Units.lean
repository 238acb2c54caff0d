import CaseGen.DataFile.Units
import CaseGen.Proofs.DataFile.Reading
import CaseGen.Proofs.Text.Units

/-! # Data files with lone surrogates

    A check does not see whether a surrogate is alone, and the format puts
    its own characters between the texts of a test case.  So a test case of
    any units is treated as the record that is written for it: it passes
    its check if that record does, and its file has the same bytes.  But
    two test cases may be written alike.

    * `exists_check_iff`  — the check of a test case of any units
    * `written_unitsOfLines`, `fileOfUnits_eq` — its lines and its file
    * `run_yields_units`  — what a call writes for test cases of any units
    * `lone_surrogate_written_alike` — two test cases that are written alike -/

namespace CaseGen

open Files Text

/-! ## Section 1: Checks -/

theorem Record.toDraft_injective {r x : Record} (h : r.toDraft = x.toDraft) : r = x := by
  obtain ⟨_, _, _, _, _⟩ := r
  obtain ⟨_, _, _, _, _⟩ := x
  cases h
  rfl

namespace UnitRecord

variable {r : UnitRecord}

/-- The texts of a test case fit in their places exactly if those that are written do. -/
theorem complete_written_iff : r.written.Complete ↔ r.Complete := by
  constructor
  · intro h
    obtain ⟨text, line, name, arguments, filled, items, comments⟩ := h
    simp only [written, List.forall_mem_map, ne_eq, written_eq_empty_iff, singleLine_written_iff,
      identifier_written_iff, singleItem_written_iff] at text line name arguments filled items comments
    exact ⟨text, line, name, arguments, filled, items, comments⟩
  · intro h
    obtain ⟨text, line, name, arguments, filled, items, comments⟩ := h
    constructor <;>
      simpa only [written, List.forall_mem_map, ne_eq, written_eq_empty_iff, singleLine_written_iff,
        identifier_written_iff, singleItem_written_iff]

/-- A test case passes its check exactly if the record that is written for it does. -/
theorem exists_check_iff : (∃ x, r.written.toDraft.check = .ok x) ↔ r.Complete := by
  rw [← complete_written_iff]
  constructor
  · intro h
    obtain ⟨x, checked⟩ := h
    obtain ⟨same, complete⟩ := Draft.check_eq_ok_iff.mp checked
    rw [Record.toDraft_injective same]
    exact complete
  · intro complete
    exact ⟨_, Draft.check_toDraft complete⟩

end UnitRecord

/-! ## Section 2: Lines and files -/

theorem written_intercalate (l : List Units) :
    Text.written ((unitsOf ":").intercalate l) = ":".intercalate (l.map Text.written) := by
  induction l with
  | nil => rfl
  | cons u rest ih =>
    cases rest with
    | nil => simp
    | cons v rest =>
      -- a colon is put between the first text and the others
      have units : (unitsOf ":").intercalate (u :: v :: rest) =
          u ++ (unitsOf ":" ++ (unitsOf ":").intercalate (v :: rest)) := by
        simp [List.intercalate]
      rw [units, written_append_unitsOf_append (by decide), ih, List.map_cons, List.map_cons,
        List.map_cons, String.intercalate_cons_cons, String.append_assoc]

/-- Lines of units are written line by line. -/
theorem written_unitsOfLines (lines : List Units) :
    Text.written (unitsOfLines lines) = textOfLines (lines.map Text.written) := by
  induction lines with
  | nil => rfl
  | cons line rest ih =>
    show Text.written (line ++ unitsOf "\n" ++ unitsOfLines rest) = _
    rw [List.append_assoc, written_append_unitsOf_append (by decide), ih, textOfLines, textOfLines,
      List.map_cons, List.map_cons, String.join_cons, String.append_assoc]

theorem UnitRecord.map_written_lines (r : UnitRecord) :
    r.lines.map Text.written = r.written.lines := by
  have empty : Text.written [] = "" := rfl
  have comment (u : Units) : Text.written (unitsOf "# " ++ u) = "# " ++ Text.written u :=
    written_unitsOf_append "# " u
  have dependency : Text.written (unitsOf "depends_on:" ++ (unitsOf ":").intercalate r.dependencies) =
      "depends_on:" ++ ":".intercalate (r.dependencies.map Text.written) := by
    rw [written_unitsOf_append, written_intercalate]
  have call : Text.written (r.function ++ (unitsOf ":" ++ (unitsOf ":").intercalate r.arguments)) =
      Text.written r.function ++ ":" ++ ":".intercalate (r.arguments.map Text.written) := by
    rw [written_append_unitsOf_append (by decide), written_intercalate, String.append_assoc]
  simp only [lines, Record.lines, Record.commentLines, Record.bodyLines, Record.dependencyLines,
    Record.callLine, written, List.map_append, apply_ite (List.map Text.written), List.map_cons,
    List.map_nil, List.map_map, Function.comp_def, List.isEmpty_map, empty, comment, dependency, call]
  simp

/-- The file of test cases has the bytes of the file of the records that are written for them. -/
theorem fileOfUnits_eq (caller : Units) (records : List UnitRecord) :
    fileOfUnits caller records =
      bytesOf (dataFileText (Text.written caller) (records.map UnitRecord.written)) := by
  have header : Text.written (unitsOf "# Automatically generated by " ++
      (caller ++ (unitsOf ". Do not edit!" ++ unitsOf "\n"))) =
        headerLine (Text.written caller) ++ "\n" := by
    unfold headerLine
    rw [written_unitsOf_append, written_append_unitsOf_append (by simp), written_unitsOf,
      String.append_assoc, String.append_assoc]
  have blocks : records.flatMap (fun r => bytesOfUnits (unitsOfLines r.lines)) =
      bytesOf (String.join ((records.map UnitRecord.written).map fun r => textOfLines r.lines)) := by
    induction records with
    | nil => rfl
    | cons r rest ih =>
      rw [List.flatMap_cons, ih, List.map_cons, List.map_cons, String.join_cons, WriteCall.bytesOf_append,
        bytesOfUnits, written_unitsOfLines, r.map_written_lines]
  rw [fileOfUnits, blocks, bytesOfUnits, header, bytesOfUnits, written_unitsOf,
    ← WriteCall.bytesOf_append, ← WriteCall.bytesOf_append]
  rfl

/-- A call that is given test cases of any units writes their file. -/
theorem run_yields_units {w v : Workspace} {filename : String} {caller : Units}
    {records : List UnitRecord} {n : Nat} (complete : ∀ r ∈ records, r.Complete)
    (run : w.writeDataFile filename (Text.written caller)
      (records.map fun r => .yield r.written.toDraft) = (.ok n, v)) :
    v.tree.lookup (w.tree.place filename) = some (.file (fileOfUnits caller records)) := by
  rw [fileOfUnits_eq]
  apply run_yields (n := n)
  · intro x mem
    obtain ⟨r, there, rfl⟩ := List.mem_map.mp mem
    exact UnitRecord.complete_written_iff.mpr (complete r there)
  · rw [List.map_map, List.map_map]
    exact run

/-! ## Section 3: Test cases that are written alike -/

/-- A lone surrogate and the character that is written for it: both test cases pass their check,
    their descriptions differ, and their files have the same bytes. -/
theorem lone_surrogate_written_alike :
    let lone : UnitRecord := { description := [0xD800], function := unitsOf "f" }
    let replaced : UnitRecord := { lone with description := [0xFFFD] }
    let call (r : UnitRecord) := ({} : Workspace).writeDataFile "a" (written (unitsOf "c"))
      [.yield r.written.toDraft]
    lone.Complete ∧ replaced.Complete ∧ lone.description ≠ replaced.description ∧
      (call lone).1.toOption = some 1 ∧ (call replaced).1.toOption = some 1 ∧
      ∃ content, (call lone).2.tree.lookup ["a"] = some (.file content) ∧
        content = fileOfUnits (unitsOf "c") [lone] ∧
        (call replaced).2.tree.lookup ["a"] = some (.file content) ∧
        content = fileOfUnits (unitsOf "c") [replaced] := by
  intro lone replaced call
  have complete : lone.Complete := UnitRecord.complete_written_iff.mp (by decide +kernel)
  have complete' : replaced.Complete := UnitRecord.complete_written_iff.mp (by decide +kernel)
  refine ⟨complete, complete', by decide, by decide +kernel, by decide +kernel,
    fileOfUnits (unitsOf "c") [lone], ?_, rfl, ?_, by decide +kernel⟩
  · decide +kernel
  · decide +kernel

end CaseGen
