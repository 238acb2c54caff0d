import CaseGen.ConstantTime.Suite
import CaseGen.Proofs.Target.Description
import Mathlib.Data.List.Infix

/-! # What a comparison expects

    A case compares its first buffer with the second one, byte by byte.  It
    finds the first position at which they differ, where a second buffer
    that has ended differs as well.  A first buffer that has ended does
    not: a buffer is taken to be equal to any other one that it begins.

    * `firstDifference_eq_none_iff` — there is no difference to a buffer that goes on
    * `firstDifference_eq_some`     — otherwise the least position with a difference is found
    * `comparison_result_iff`, `comparison_equal_iff` — the result and the description go by it
    * `comparison_goes_by_first`    — what a case expects of any two buffers
    * `longer_second_is_equal`      — it is not the same for the buffers the other way round -/

namespace CaseGen.ConstantTime

variable {a b : List UInt8} {i : Nat}

/-! ## Section 1: The first difference -/

theorem firstDifference_eq_none_iff : firstDifference a b = none ↔ a <+: b := by
  induction a generalizing b with
  | nil => simp [firstDifference]
  | cons x a ih =>
    cases b with
    | nil => simp [firstDifference]
    | cons y b =>
      rw [List.cons_prefix_cons, ← ih, firstDifference]
      by_cases same : x = y <;> simp [same]

/-- The buffers differ at the position that is found, and before it they agree. -/
theorem firstDifference_eq_some (found : firstDifference a b = some i) :
    a[i]? ≠ b[i]? ∧ ∀ j < i, a[j]? = b[j]? := by
  induction a generalizing b i with
  | nil => cases found
  | cons x a ih =>
    cases b with
    | nil =>
      cases found
      exact ⟨by simp, by omega⟩
    | cons y b =>
      unfold firstDifference at found
      by_cases same : x = y
      · rw [if_pos same] at found
        obtain ⟨k, later, rfl⟩ := Option.map_eq_some_iff.mp found
        obtain ⟨differ, agree⟩ := ih later
        refine ⟨by simpa using differ, ?_⟩
        intro j lt
        cases j with
        | zero => simp [same]
        | succ j => simpa using agree j (by omega)
      · rw [if_neg same] at found
        cases found
        exact ⟨by simpa using same, by omega⟩

/-! ## Section 2: Result and description -/

/-- The instance that compares two buffers. -/
def comparisonOf (r : Registry) (a b : List UInt8) : Instance :=
  (r.construct comparisons (comparison a b)).1

/-- The result that a case expects: the last of its arguments. -/
def expected (i : Instance) : Option String := i.spec.arguments.getLast?

variable {r : Registry}

theorem expected_comparison (r : Registry) (a b : List UInt8) :
    expected (comparisonOf r a b) = some (if a <+: b then "0" else "1") := by
  have none : (firstDifference a b).isNone ↔ a <+: b := by
    rw [Option.isNone_iff_eq_none, firstDifference_eq_none_iff]
  have spec : (comparisonOf r a b).spec.arguments.getLast? =
      some (if (firstDifference a b).isNone then "0" else "1") := rfl
  rw [expected, spec]
  by_cases begins : a <+: b <;> simp only [none, begins, if_true, if_false]

theorem comparison_result_iff : expected (comparisonOf r a b) = some "0" ↔ a <+: b := by
  rw [expected_comparison]
  by_cases begins : a <+: b <;> simp [begins]

theorem description_comparison (r : Registry) (a b : List UInt8) :
    (comparisonOf r a b).description =
      "Constant-time memcmp #" ++ toString (r.count comparisons + 1) ++ " " ++ toString a.length ++
        match firstDifference a b with
        | none => " bytes equal"
        | some k => " bytes differ at " ++ toString k := by
  have title : comparisons.title? = some "Constant-time memcmp" := rfl
  have detail : (comparisonOf r a b).spec.detail = toString a.length ++
      match firstDifference a b with
      | none => " bytes equal"
      | some k => " bytes differ at " ++ toString k := rfl
  show comparisons.title?.getD "undefined" ++ " #" ++ toString (r.count comparisons + 1) ++ " " ++
    (comparisonOf r a b).spec.detail = _
  rw [title, detail, ← String.append_assoc]
  rfl

/-- A description that names a position ends with a digit. -/
theorem comparison_equal_iff :
    "bytes equal".toList <:+ (comparisonOf r a b).description.toList ↔ a <+: b := by
  rw [description_comparison, ← firstDifference_eq_none_iff, String.toList_append]
  generalize ("Constant-time memcmp #" ++ toString (r.count comparisons + 1) ++ " " ++
    toString a.length).toList = front
  cases found : firstDifference a b with
  | none =>
    simp only [iff_true]
    exact ⟨front ++ [' '], by simp⟩
  | some k =>
    simp only [reduceCtorEq, iff_false, String.toList_append]
    intro suffix
    obtain ⟨before, same⟩ := suffix
    have last := congrArg List.getLast? same
    have letter : ¬ 'l'.isDigit := by decide
    cases digits : (toString k).toList.getLast? with
    | none =>
      rw [List.getLast?_append, List.getLast?_append, List.getLast?_append, digits] at last
      simp at last
    | some c =>
      rw [List.getLast?_append, List.getLast?_append, List.getLast?_append, digits] at last
      obtain rfl : 'l' = c := by simpa using last
      exact not_mem_toString letter k (List.mem_of_getLast? digits)

/-! ## Section 3: What a case expects -/

/-- A case expects equality of two buffers if the first one begins the second one.  Otherwise it
    expects a difference, and the description names the first position at which they differ.  So it
    tells equal buffers from others unless the second one goes on where the first one ends, and then
    it expects something else for the buffers the other way round. -/
theorem comparison_goes_by_first (r : Registry) (a b : List UInt8) :
    (expected (comparisonOf r a b) = some "0" ↔ a <+: b) ∧
    ("bytes equal".toList <:+ (comparisonOf r a b).description.toList ↔ a <+: b) ∧
    (¬ a <+: b → expected (comparisonOf r a b) = some "1" ∧
      ∃ k : Nat, a[k]? ≠ b[k]? ∧ (∀ j < k, a[j]? = b[j]?) ∧
        (comparisonOf r a b).description =
          "Constant-time memcmp #" ++ toString (r.count comparisons + 1) ++ " " ++
            toString a.length ++ (" bytes differ at " ++ toString k)) ∧
    ((expected (comparisonOf r a b) = some "0" ↔ a = b) ↔ ¬ (a <+: b ∧ a.length < b.length)) ∧
    (expected (comparisonOf r a b) = expected (comparisonOf r b a) ↔
      a = b ∨ ¬ (a <+: b ∨ b <+: a)) := by
  have proper : (a <+: b ↔ a = b) ↔ ¬ (a <+: b ∧ a.length < b.length) := by
    constructor
    · intro same
      rintro ⟨begins, less⟩
      rw [same.mp begins] at less
      omega
    · intro notLonger
      refine ⟨fun begins => ?_, fun same => same ▸ List.prefix_refl a⟩
      have le : ¬ a.length < b.length := fun less => notLonger ⟨begins, less⟩
      exact begins.eq_of_length (Nat.le_antisymm begins.length_le (Nat.le_of_not_lt le))
  refine ⟨comparison_result_iff, comparison_equal_iff, ?_, ?_, ?_⟩
  · intro differs
    obtain ⟨k, found⟩ := Option.ne_none_iff_exists'.mp (mt firstDifference_eq_none_iff.mp differs)
    obtain ⟨differ, agree⟩ := firstDifference_eq_some found
    refine ⟨by rw [expected_comparison, if_neg differs], k, differ, agree, ?_⟩
    rw [description_comparison, found]
  · rw [comparison_result_iff]
    exact proper
  · rw [expected_comparison, expected_comparison]
    have ne (apart : ¬ a <+: b ∨ ¬ b <+: a) : a ≠ b := by
      intro same
      simp [same] at apart
    by_cases begins : a <+: b <;> by_cases begins' : b <+: a
    · have same : a = b := List.infix_antisymm begins.isInfix begins'.isInfix
      simp [same]
    · simp [begins, begins', ne (.inr begins')]
    · simp [begins, begins', ne (.inl begins)]
    · simp [begins, begins']

/-- The second buffer goes on where the first one ends, and the case expects them to be equal; the
    other way round the end of a buffer is a difference. -/
theorem longer_second_is_equal :
    let there := comparisonOf registry [7] [7, 8]
    let back := comparisonOf registry [7, 8] [7]
    [7] ≠ ([7, 8] : List UInt8) ∧
      expected there = some "0" ∧ there.description = "Constant-time memcmp #1 1 bytes equal" ∧
      expected back = some "1" ∧
      back.description = "Constant-time memcmp #1 2 bytes differ at 1" := by
  decide +kernel

end CaseGen.ConstantTime
