import CaseGen.TestCase.Lines
import Mathlib.Data.List.Forall2

/-! # Complete records

    A draft passes its check exactly when its description and its function
    are there and every text in it keeps to the line format.  A record that
    comes out of a check is therefore one whose lines can be written.

    * `Record.Complete`       — what a check guarantees of a record
    * `Draft.check_eq_ok_iff` — a check succeeds with a record exactly if the draft is that
      record and the record is complete -/

namespace CaseGen

/-! ## Section 1: Rules without issues -/

namespace TextRule

theorem textIssues_eq_nil_iff {rule : TextRule} {path : List Place} {s : String} :
    rule.textIssues path s = [] ↔ ∀ c ∈ rule.checks, c.holds s = true := by
  simp [textIssues]

theorem issues_str_eq_nil_iff {rule : TextRule} {path : List Place} {s : String} :
    rule.issues path (some (.str s)) = [] ↔ ∀ c ∈ rule.checks, c.holds s = true :=
  textIssues_eq_nil_iff

theorem issues_map_str_eq_nil_iff {rule : TextRule} {path : List Place} {s? : Option String} :
    rule.issues path (s?.map .str) = [] ↔ ∃ s, s? = some s ∧ ∀ c ∈ rule.checks, c.holds s = true := by
  cases s? with
  | none => simp [issues]
  | some s => simp [issues_str_eq_nil_iff]

theorem listIssues_ofStrings_eq_nil_iff {rule : TextRule} {path : List Place} {l : List String} :
    rule.listIssues path (some (.ofStrings l)) = [] ↔
      ∀ s ∈ l, ∀ c ∈ rule.checks, c.holds s = true := by
  -- the positions only name the place of an issue, so they are forgotten at once
  have positions : ∀ k, ((l.map Value.str).zipIdx k).flatMap
      (fun item => rule.issues (path ++ [.index item.2]) (some item.1)) = [] ↔
        ∀ s ∈ l, ∀ c ∈ rule.checks, c.holds s = true := by
    induction l with
    | nil => simp
    | cons s l ih =>
      intro k
      simp only [List.map_cons, List.zipIdx_cons, List.flatMap_cons, List.append_eq_nil_iff, ih,
        issues_str_eq_nil_iff, List.forall_mem_cons]
  exact positions 0

end TextRule

/-! ## Section 2: Complete records -/

open Text

namespace Record

/-- Every text of the record keeps to the line format. -/
structure Complete (r : Record) : Prop where
  description_ne_empty : r.description ≠ ""
  description_line : SingleLine r.description
  function_name : Identifier r.function
  argument_line : ∀ s ∈ r.arguments, SingleLine s
  dependency_ne_empty : ∀ s ∈ r.dependencies, s ≠ ""
  dependency_item : ∀ s ∈ r.dependencies, SingleItem s
  comment_line : ∀ s ∈ r.comments, SingleLine s

instance (r : Record) : Decidable r.Complete :=
  decidable_of_iff
    (r.description ≠ "" ∧ SingleLine r.description ∧ Identifier r.function ∧
      (∀ s ∈ r.arguments, SingleLine s) ∧ (∀ s ∈ r.dependencies, s ≠ "") ∧
      (∀ s ∈ r.dependencies, SingleItem s) ∧ ∀ s ∈ r.comments, SingleLine s)
    ⟨fun ⟨h₁, h₂, h₃, h₄, h₅, h₆, h₇⟩ => ⟨h₁, h₂, h₃, h₄, h₅, h₆, h₇⟩,
      fun ⟨h₁, h₂, h₃, h₄, h₅, h₆, h₇⟩ => ⟨h₁, h₂, h₃, h₄, h₅, h₆, h₇⟩⟩

end Record

namespace Draft

/-- Nothing is wrong with a draft exactly if it is a complete record. -/
theorem issues_eq_nil_iff {d : Draft} : d.issues = [] ↔ ∃ r : Record, d = r.toDraft ∧ r.Complete := by
  have fields : d.issues = [] ↔
      (∃ s, d.description = some s ∧ s ≠ "" ∧ SingleLine s) ∧
      (∃ s, d.function = some s ∧ Identifier s) ∧
      (∀ s ∈ d.arguments, SingleLine s) ∧
      (∀ s ∈ d.dependencies, s ≠ "" ∧ SingleItem s) ∧
      ∀ s ∈ d.comments, SingleLine s := by
    simp only [issues, CaseFields.issues, CaseFields.ofDraft, List.append_eq_nil_iff, and_assoc,
      TextRule.issues_map_str_eq_nil_iff, TextRule.listIssues_ofStrings_eq_nil_iff]
    simp [CaseRule.description, CaseRule.function, CaseRule.argument, CaseRule.dependency,
      CaseRule.comment]
  rw [fields]
  constructor
  · intro h
    obtain ⟨⟨s, hs, ne, line⟩, ⟨f, hf, name⟩, args, deps, comments⟩ := h
    refine ⟨⟨s, f, d.arguments, d.dependencies, d.comments⟩, ?_, ?_⟩
    · cases d
      simp only at hs hf
      simp [Record.toDraft, hs, hf]
    · exact ⟨ne, line, name, args, fun u hu => (deps u hu).1, fun u hu => (deps u hu).2, comments⟩
  · intro h
    obtain ⟨r, rfl, complete⟩ := h
    exact ⟨⟨_, rfl, complete.description_ne_empty, complete.description_line⟩,
      ⟨_, rfl, complete.function_name⟩, complete.argument_line,
      fun s hs => ⟨complete.dependency_ne_empty s hs, complete.dependency_item s hs⟩,
      complete.comment_line⟩

theorem check_eq_ok_iff {d : Draft} {r : Record} :
    d.check = .ok r ↔ d = r.toDraft ∧ r.Complete := by
  constructor
  · intro h
    unfold check at h
    split at h
    · cases h
    next none =>
      obtain ⟨r', rfl, complete⟩ := issues_eq_nil_iff.mp none
      cases h
      exact ⟨rfl, complete⟩
  · intro h
    obtain ⟨rfl, complete⟩ := h
    have none : r.toDraft.issues = [] := issues_eq_nil_iff.mpr ⟨r, rfl, complete⟩
    unfold check
    simp only [none]
    rfl

theorem check_toDraft {r : Record} (h : r.Complete) : r.toDraft.check = .ok r :=
  check_eq_ok_iff.mpr ⟨rfl, h⟩

theorem forall₂_check_toDraft {records : List Record} (h : ∀ r ∈ records, r.Complete) :
    List.Forall₂ (fun d r => d.check = .ok r) (records.map Record.toDraft) records := by
  rw [List.forall₂_map_left_iff, List.forall₂_same]
  exact fun r hr => check_toDraft (h r hr)

/-- Test cases that pass their checks are those of complete records. -/
theorem exists_records {ds : List Draft} (h : ∀ d ∈ ds, ∃ r, d.check = .ok r) :
    ∃ records : List Record, ds = records.map Record.toDraft ∧ ∀ r ∈ records, r.Complete := by
  induction ds with
  | nil => exact ⟨[], rfl, by simp⟩
  | cons d ds ih =>
    obtain ⟨r, checked⟩ := h d (by simp)
    obtain ⟨rfl, complete⟩ := check_eq_ok_iff.mp checked
    obtain ⟨records, rfl, all⟩ := ih fun e he => h e (by simp [he])
    exact ⟨r :: records, rfl, by simpa using ⟨complete, all⟩⟩

theorem checked_of_forall₂ {ds : List Draft} {records : List Record}
    (h : List.Forall₂ (fun d r => d.check = .ok r) ds records) : ∀ d ∈ ds, ∃ r, d.check = .ok r := by
  induction h with
  | nil => simp
  | cons checked _ ih => exact List.forall_mem_cons.mpr ⟨⟨_, checked⟩, ih⟩

/-- What the checks of test cases give are the complete records that the test cases come from. -/
theorem forall₂_check_iff {ds : List Draft} {records : List Record} :
    List.Forall₂ (fun d r => d.check = .ok r) ds records ↔
      ds = records.map Record.toDraft ∧ ∀ r ∈ records, r.Complete := by
  constructor
  · intro h
    induction h with
    | nil => exact ⟨rfl, by simp⟩
    | cons checked _ ih =>
      obtain ⟨rfl, complete⟩ := check_eq_ok_iff.mp checked
      obtain ⟨rfl, others⟩ := ih
      exact ⟨rfl, List.forall_mem_cons.mpr ⟨complete, others⟩⟩
  · intro h
    obtain ⟨rfl, complete⟩ := h
    exact forall₂_check_toDraft complete

theorem exists_forall₂_check {ds : List Draft} (h : ∀ d ∈ ds, ∃ r, d.check = .ok r) :
    ∃ records, List.Forall₂ (fun d r => d.check = .ok r) ds records := by
  obtain ⟨records, rfl, complete⟩ := exists_records h
  exact ⟨records, forall₂_check_toDraft complete⟩

/-- Test cases have one list of records. -/
theorem records_unique {ds : List Draft} {records records' : List Record}
    (h : List.Forall₂ (fun d r => d.check = .ok r) ds records)
    (h' : List.Forall₂ (fun d r => d.check = .ok r) ds records') : records' = records := by
  have unique : Relator.RightUnique fun (d : Draft) r => d.check = .ok r := by
    intro d r r' checked checked'
    rw [checked] at checked'
    cases checked'
    rfl
  exact (unique.forall₂ h h').symm

theorem lines_eq_ok_iff {d : Draft} {l : List String} :
    d.lines = .ok l ↔ ∃ r, d.check = .ok r ∧ l = r.lines := by
  unfold lines
  cases d.check <;> simp [Except.map, eq_comm]

theorem isOk_lines_iff {d : Draft} : d.lines.isOk ↔ ∃ r, d.check = .ok r := by
  unfold lines
  cases d.check <;> simp [Except.map, Except.isOk, Except.toBool]

theorem lines_eq_error_iff {d : Draft} {f : Failure} : d.lines = .error f ↔ d.check = .error f := by
  unfold lines
  cases d.check <;> simp [Except.map]

end Draft

end CaseGen
