import CaseGen.Proofs.TestCase.Complete
import CaseGen.Proofs.Text.Cut
import CaseGen.Target.Class

/-! # Descriptions of instances

    A description is a title, a number and a detail.  A title without the
    mark in front of the number, and digits without the blank behind it, can
    be told apart from what follows, whatever the detail says.

    * `isDigit_of_mem_toString`  — numbers are written in digits
    * `TargetClass.shownTitle`   — the title as descriptions show it
    * `Instance.description_inj` — a description determines title, number and detail
    * `Instance.isOk_lines_congr` — the number does not decide whether a case can be written -/

namespace CaseGen

open Text

/-! ## Section 1: Numbers in digits -/

theorem isDigit_of_mem_toString {n : Nat} {c : Char} (h : c ∈ (toString n).toList) : c.isDigit := by
  rw [Nat.toString_eq_ofList_toDigits, String.toList_ofList] at h
  exact Nat.isDigit_of_mem_toDigits (by decide) (by decide) h

theorem toString_nat_injective {n m : Nat} (h : toString n = toString m) : n = m := by
  have digits : Nat.toDigits 10 n = Nat.toDigits 10 m := by
    simpa [Nat.toString_eq_ofList_toDigits] using congrArg String.toList h
  rw [← Nat.ofDigitChars_ten_toDigits (n := n), digits, Nat.ofDigitChars_ten_toDigits]

/-- A character that is no digit is not in the text of a number. -/
theorem not_mem_toString {c : Char} (h : ¬ c.isDigit) (n : Nat) : c ∉ (toString n).toList :=
  fun mem => h (isDigit_of_mem_toString mem)

theorem singleLine_toString (n : Nat) : SingleLine (toString n) := by
  intro c mem breaks
  have digit := isDigit_of_mem_toString mem
  rcases breaks with rfl | rfl
  · exact absurd digit (by decide)
  · exact absurd digit (by decide)

/-! ## Section 2: The parts of a description -/

/-- The title of a class as descriptions show it. -/
def TargetClass.shownTitle (c : TargetClass) : String := c.title?.getD "undefined"

namespace Instance

variable {i j : Instance}

/-- The characters of a description, cut before the mark and after the number. -/
theorem toList_description (i : Instance) :
    i.description.toList = (i.target.shownTitle.toList ++ [' ']) ++
      '#' :: ((toString i.number).toList ++ ' ' :: i.spec.detail.toList) := by
  simp [description, TargetClass.shownTitle]

/-- A description determines title, number and detail if the titles do not hold the mark. -/
theorem description_inj (hi : '#' ∉ i.target.shownTitle.toList)
    (hj : '#' ∉ j.target.shownTitle.toList) (h : i.description = j.description) :
    i.target.shownTitle = j.target.shownTitle ∧ i.number = j.number ∧
      i.spec.detail = j.spec.detail := by
  have chars := congrArg String.toList h
  rw [toList_description, toList_description] at chars
  -- the first mark ends the title, and then the first blank ends the number
  have title : '#' ∉ i.target.shownTitle.toList ++ [' '] := by simpa using hi
  have title' : '#' ∉ j.target.shownTitle.toList ++ [' '] := by simpa using hj
  obtain ⟨titles, rest⟩ := append_inj_of_cut title title' (by simp) (by simp) chars
  have blank : ¬ ' '.isDigit := by decide
  obtain ⟨numbers, details⟩ := append_inj_of_cut (not_mem_toString blank i.number)
    (not_mem_toString blank j.number) (by simp) (by simp) (List.cons.inj rest).2
  exact ⟨String.toList_inj.mp (List.append_cancel_right titles),
    toString_nat_injective (String.toList_inj.mp numbers),
    String.toList_inj.mp (List.cons.inj details).2⟩

/-- A description is a line if its title and its detail are, whatever the number. -/
theorem singleLine_description_iff :
    SingleLine i.description ↔ SingleLine i.target.shownTitle ∧ SingleLine i.spec.detail := by
  have number := singleLine_toString i.number
  have blank : ¬ IsLineBreak ' ' := by decide
  have mark : ¬ IsLineBreak '#' := by decide
  unfold SingleLine at number ⊢
  rw [toList_description]
  constructor
  · intro line
    exact ⟨fun c mem => line c (by simp [mem]), fun c mem => line c (by simp [mem])⟩
  · intro lines c mem
    obtain ⟨title, detail⟩ := lines
    simp only [List.mem_append, List.mem_cons, List.not_mem_nil, or_false] at mem
    rcases mem with (mem | rfl) | rfl | mem | rfl | mem
    · exact title c mem
    · exact blank
    · exact mark
    · exact number c mem
    · exact blank
    · exact detail c mem

theorem description_ne_empty (i : Instance) : i.description ≠ "" := by
  intro none
  have chars := congrArg String.toList none
  rw [toList_description] at chars
  simp at chars

/-! ## Section 3: Cases that can be written -/

/-- Whether a case is complete does not depend on its number. -/
theorem check_congr (target : j.target = i.target) (spec : j.spec = i.spec)
    (ok : ∃ r, i.draft.check = .ok r) : ∃ r, j.draft.check = .ok r := by
  obtain ⟨r, checked⟩ := ok
  obtain ⟨same, complete⟩ := Draft.check_eq_ok_iff.mp checked
  -- the record of the other case has another description, and that one is a line as well
  let r' : Record := { r with description := j.description }
  have description : r.description = i.description := by
    simpa [draft, Record.toDraft] using (congrArg Draft.description same).symm
  have line : SingleLine j.description := by
    have line := complete.description_line
    rw [description, singleLine_description_iff] at line
    rwa [singleLine_description_iff, target, spec]
  have complete' : r'.Complete :=
    { complete with description_ne_empty := description_ne_empty j, description_line := line }
  have same' : j.draft = r'.toDraft := by
    have fields : { i.draft with description := some j.description } = r'.toDraft := by
      rw [same]
      rfl
    rw [← fields, draft, draft, target, spec]
  exact ⟨r', Draft.check_eq_ok_iff.mpr ⟨same', complete'⟩⟩

/-- Whether a case can be written does not depend on its number. -/
theorem isOk_lines_congr (target : i.target = j.target) (spec : i.spec = j.spec) :
    i.draft.lines.isOk = j.draft.lines.isOk := by
  rw [Bool.eq_iff_iff, Draft.isOk_lines_iff, Draft.isOk_lines_iff]
  exact ⟨check_congr target.symm spec.symm, check_congr target spec⟩

end Instance

end CaseGen
