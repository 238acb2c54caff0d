import CaseGen.Proofs.DataFile.Commit
import CaseGen.Proofs.TestCase.Blocks

/-! # Data files are read in one way

    The text of a data file is a sequence of lines.  The first one names
    the caller, the last two are the same in every file, and those between
    them are the blocks of the records.  So two files with the same bytes
    have the same caller and the same entries.

    * `dataFileText_eq`        — a data file as a sequence of lines
    * `dataFileText_injective` — files with the same text
    * `run_yields`             — what a call writes that is given test cases
    * `content_determines_entries` — files with the same bytes -/

namespace CaseGen

open Files

/-! ## Section 1: The text of a file -/

theorem textOfLines_flatMap (l : List Record) :
    String.join (l.map fun r => textOfLines r.lines) = textOfLines (l.flatMap Record.lines) := by
  induction l with
  | nil => rfl
  | cons r l ih => simp [String.join_cons, ih]

theorem dataFileText_eq (caller : String) (records : List Record) :
    dataFileText caller records =
      textOfLines (headerLine caller :: records.flatMap Record.lines ++ ["", footerLine]) := by
  simp [dataFileText, textOfLines_flatMap, footerText, String.append_assoc]

theorem headerLine_injective {a b : String} (h : headerLine a = headerLine b) : a = b := by
  unfold headerLine at h
  exact (String.append_right_inj _).mp ((String.append_left_inj _).mp h)

theorem no_feed_append {a b : String} (ha : '\n' ∉ a.toList) (hb : '\n' ∉ b.toList) :
    '\n' ∉ (a ++ b).toList := by
  rw [String.toList_append, List.mem_append]
  exact not_or.mpr ⟨ha, hb⟩

/-- The lines of a data file hold no line feed. -/
theorem no_feed {caller : String} {records : List Record} (line : '\n' ∉ caller.toList)
    (complete : ∀ r ∈ records, r.Complete) :
    ∀ s ∈ headerLine caller :: records.flatMap Record.lines ++ ["", footerLine],
      '\n' ∉ s.toList := by
  intro s hs
  simp only [List.cons_append, List.mem_cons, List.mem_append, List.mem_flatMap,
    List.not_mem_nil, or_false] at hs
  rcases hs with header | ⟨r, hr, hs⟩ | empty | footer
  · rw [header]
    unfold headerLine
    exact no_feed_append (no_feed_append (by decide +kernel) line) (by decide +kernel)
  · exact (complete r hr).no_feed s hs
  · rw [empty]
    decide +kernel
  · rw [footer]
    decide +kernel

/-- Data files with the same text have the same caller and the same entries. -/
theorem dataFileText_injective {a b : String} {l m : List Record} (ha : '\n' ∉ a.toList)
    (hb : '\n' ∉ b.toList) (hl : ∀ r ∈ l, r.Complete) (hm : ∀ r ∈ m, r.Complete)
    (h : dataFileText a l = dataFileText b m) :
    a = b ∧ List.Forall₂ (fun r s => r.toDraft.SameEntry s.toDraft) l m := by
  -- both texts are cut into lines; header and footer are one line and two lines in any file
  rw [dataFileText_eq, dataFileText_eq] at h
  have lines := textOfLines_injective (no_feed ha hl) (no_feed hb hm) h
  rw [List.cons_append, List.cons_append] at lines
  obtain ⟨header, rest⟩ := List.cons.inj lines
  exact ⟨headerLine_injective header,
    Record.flatMap_lines_inj hl hm (List.append_cancel_right rest)⟩

/-! ## Section 2: The content of a file -/

theorem bytesOf_injective {a b : String} (h : bytesOf a = bytesOf b) : a = b := by
  refine String.toByteArray_inj.mp (ByteArray.ext (Array.toList_inj.mp ?_))
  simpa [bytesOf] using h

/-- A call that is given the test cases of complete records writes the file of these. -/
theorem run_yields {w v : Workspace} {filename caller : String} {records : List Record} {n : Nat}
    (complete : ∀ r ∈ records, r.Complete)
    (run : w.writeDataFile filename caller ((records.map Record.toDraft).map .yield) = (.ok n, v)) :
    v.tree.lookup (w.tree.place filename) =
      some (.file (bytesOf (dataFileText caller records))) := by
  let c : WriteCall := ⟨filename, caller, (records.map Record.toDraft).map .yield⟩
  obtain ⟨m, h⟩ := WriteCall.exists_after_done_iff.mpr (show c.run w = _ from run)
  obtain ⟨created, t₁, tmp, t₂, opens⟩ := WriteCall.exists_opens h (.inr ⟨n, rfl⟩)
  have checked : List.Forall₂ (fun d r => d.check = .ok r) (yielded w.registry c.steps) records := by
    rw [yielded_yield]
    exact Draft.forall₂_check_toDraft complete
  have spares : c.Spares w tmp := WriteCall.spares_of_touches (by simp [c])
  exact (opens.committed checked spares h).2.1

/-- Two calls that are given lists of complete test cases, of any length and content, and that
    leave files with the same bytes have the same caller and the same entries.  Argument lists
    are the same too where both are filled and no argument has a colon. -/
theorem content_determines_entries {w₁ w₂ v₁ v₂ : Workspace}
    {filename₁ filename₂ caller₁ caller₂ : String} {ds₁ ds₂ : List Draft} {n₁ n₂ : Nat}
    {content : Bytes} (line₁ : '\n' ∉ caller₁.toList) (line₂ : '\n' ∉ caller₂.toList)
    (checked₁ : ∀ d ∈ ds₁, ∃ r, d.check = .ok r) (checked₂ : ∀ d ∈ ds₂, ∃ r, d.check = .ok r)
    (run₁ : w₁.writeDataFile filename₁ caller₁ (ds₁.map .yield) = (.ok n₁, v₁))
    (run₂ : w₂.writeDataFile filename₂ caller₂ (ds₂.map .yield) = (.ok n₂, v₂))
    (file₁ : v₁.tree.lookup (w₁.tree.place filename₁) = some (.file content))
    (file₂ : v₂.tree.lookup (w₂.tree.place filename₂) = some (.file content)) :
    caller₁ = caller₂ ∧ ds₁.length = ds₂.length ∧
      List.Forall₂ (fun d e => d.SameEntry e ∧
        (d.arguments ≠ [] → e.arguments ≠ [] →
          (∀ a ∈ d.arguments ++ e.arguments, ':' ∉ a.toList) → d.arguments = e.arguments))
        ds₁ ds₂ := by
  obtain ⟨l, rfl, hl⟩ := Draft.exists_records checked₁
  obtain ⟨m, rfl, hm⟩ := Draft.exists_records checked₂
  rw [run_yields hl run₁] at file₁
  rw [run_yields hm run₂, ← file₁] at file₂
  have text : dataFileText caller₁ l = dataFileText caller₂ m :=
    bytesOf_injective (Node.file.inj (Option.some.inj file₂)).symm
  obtain ⟨caller, entries⟩ := dataFileText_injective line₁ line₂ hl hm text
  refine ⟨caller, by simpa using entries.length_eq, ?_⟩
  rw [List.forall₂_map_left_iff, List.forall₂_map_right_iff]
  exact entries.imp fun r s same => ⟨same, same.arguments⟩

/-- Two files with the same bytes, whose descriptions and comments look like other lines.  Their
    entries are the same, but the arguments of one have a colon. -/
theorem content_determines_entries_look_alikes :
    let plain : Record := ⟨"# text", "f", [], [], []⟩
    let joined : Record := ⟨"depends_on:X", "f", ["1:2"], ["X"], [footerLine]⟩
    let parted : Record := { joined with arguments := ["1", "2"] }
    let content := bytesOf (dataFileText "c" [plain, joined])
    ∃ v₁ v₂, ({} : Workspace).writeDataFile "x" "c"
        ([plain.toDraft, joined.toDraft].map .yield) = (.ok 2, v₁) ∧
      ({} : Workspace).writeDataFile "y" "c"
        ([plain.toDraft, parted.toDraft].map .yield) = (.ok 2, v₂) ∧
      v₁.tree.lookup ["x"] = some (.file content) ∧ v₂.tree.lookup ["y"] = some (.file content) ∧
      joined.toDraft.SameEntry parted.toDraft ∧ joined.arguments ≠ parted.arguments := by
  intro plain joined parted content
  have checked {r : Record} (h : r.Complete) : ∃ s, r.toDraft.check = .ok s :=
    ⟨r, Draft.check_toDraft h⟩
  have total₁ : (({} : Workspace).writeDataFile "x" "c"
      ([plain.toDraft, joined.toDraft].map .yield)).1.toOption = some 2 := by decide +kernel
  have total₂ : (({} : Workspace).writeDataFile "y" "c"
      ([plain.toDraft, parted.toDraft].map .yield)).1.toOption = some 2 := by decide +kernel
  have file₁ : (({} : Workspace).writeDataFile "x" "c"
      ([plain.toDraft, joined.toDraft].map .yield)).2.tree.lookup ["x"] = some (.file content) := by
    decide +kernel
  have file₂ : (({} : Workspace).writeDataFile "y" "c"
      ([plain.toDraft, parted.toDraft].map .yield)).2.tree.lookup ["y"] = some (.file content) := by
    decide +kernel
  rcases run₁ : ({} : Workspace).writeDataFile "x" "c"
    ([plain.toDraft, joined.toDraft].map .yield) with ⟨r₁, v₁⟩
  rcases run₂ : ({} : Workspace).writeDataFile "y" "c"
    ([plain.toDraft, parted.toDraft].map .yield) with ⟨r₂, v₂⟩
  rw [run₁] at total₁ file₁
  rw [run₂] at total₂ file₂
  obtain ⟨_⟩ | ⟨n₁⟩ := r₁ <;> cases total₁
  obtain ⟨_⟩ | ⟨n₂⟩ := r₂ <;> cases total₂
  obtain ⟨-, -, entries⟩ := content_determines_entries (by decide +kernel) (by decide +kernel)
    (List.forall_mem_cons.mpr ⟨checked (by decide +kernel), List.forall_mem_singleton.mpr
      (checked (by decide +kernel))⟩)
    (List.forall_mem_cons.mpr ⟨checked (by decide +kernel), List.forall_mem_singleton.mpr
      (checked (by decide +kernel))⟩) run₁ run₂ file₁ file₂
  cases entries with
  | cons _ entries =>
    cases entries with
    | cons same _ => exact ⟨v₁, v₂, rfl, rfl, file₁, file₂, same.1, by decide +kernel⟩

end CaseGen
