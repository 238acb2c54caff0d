import CaseGen.Proofs.Target.Description

/-! # Decimal text

    Integers are written in decimal digits, after a minus sign if they are
    negative.  Such a text is one item of a joined list, and it is read back
    as the integer that it was written for.

    * `singleItem_toString` — the text of an integer is one item
    * `toInt?_toString`     — it is read back

    The library proves the latter too, but in no module that can be imported
    without all of it. -/

namespace CaseGen

open Text String

/-! ## Section 1: Items -/

theorem singleItem_toString_nat (n : Nat) : SingleItem (toString n) := by
  intro c mem
  have colon : ¬ ':'.isDigit := by decide
  refine ⟨singleLine_toString n c mem, ?_⟩
  intro same
  subst same
  exact not_mem_toString colon n mem

theorem singleItem_toString (n : Int) : SingleItem (toString n) := by
  cases n with
  | ofNat n => exact singleItem_toString_nat n
  | negSucc n =>
    have minus : SingleItem "-" := by decide
    have digits := singleItem_toString_nat (n + 1)
    have text : (toString (Int.negSucc n)).toList = "-".toList ++ (toString (n + 1)).toList := by
      rw [← String.toList_append]
      rfl
    intro c mem
    rw [text] at mem
    rcases List.mem_append.mp mem with mem | mem
    · exact minus c mem
    · exact digits c mem

/-! ## Section 2: Reading back -/

/-- Digits without underscores between them are a numeral. -/
theorem isNat_of_digits {s : Slice} (filled : s.copy.toList ≠ [])
    (digits : ∀ c ∈ s.copy.toList, c.isDigit ∧ c ≠ '_') : s.isNat := by
  unfold Slice.isNat
  simp only [Slice.forIn_eq_forIn_toList]
  generalize s.copy.toList = l at *
  induction l with
  | nil => exact absurd rfl filled
  | cons c rest ih =>
    obtain ⟨⟨digit, other⟩, digits⟩ := List.forall_mem_cons.mp digits
    cases rest with
    | nil => simp [digit, other]
    | cons d rest =>
      obtain ⟨⟨digit', other'⟩, -⟩ := List.forall_mem_cons.mp digits
      simpa [digit, other, digit', other'] using ih (List.cons_ne_nil _ _) digits

theorem foldl_digits {l : List Char} (digits : '_' ∉ l) (n : Nat) :
    l.foldl (fun n c => if c = '_' then n else n * 10 + (c.toNat - '0'.toNat)) n =
      Nat.ofDigitChars 10 l n := by
  induction l generalizing n with
  | nil => rfl
  | cons c l ih =>
    obtain ⟨other, others⟩ := not_or.mp (mt List.mem_cons.mpr digits)
    rw [List.foldl_cons, if_neg (Ne.symm other), ih others, Nat.ofDigitChars_cons, Nat.mul_comm n]

/-- The digits of a number are read as this number. -/
theorem toNat?_of_copy {s : Slice} {n : Nat} (text : s.copy = n.repr) :
    s.toNat? = some n := by
  have digits : ∀ c ∈ s.copy.toList, c.isDigit ∧ c ≠ '_' := by
    rw [text, Nat.toList_repr]
    intro c mem
    refine ⟨Nat.isDigit_of_mem_toDigits (by decide) (by decide) mem, ?_⟩
    rintro rfl
    exact Nat.underscore_not_in_toDigits mem
  have filled : s.copy.toList ≠ [] := by simp [text]
  have plain : '_' ∉ s.copy.toList := fun mem => (digits _ mem).2 rfl
  rw [Slice.toNat?, if_pos (isNat_of_digits filled digits), Slice.foldl_eq_foldl_toList,
    foldl_digits plain, text, Nat.toList_repr, Nat.ofDigitChars_ten_toDigits]

theorem toInt?_repr (n : Nat) : n.repr.toInt? = some (n : Int) := by
  show Slice.toInt? _ = _
  unfold Slice.toInt?
  split
  next rest cut =>
    -- a minus sign is no digit
    have text := Slice.eq_append_of_dropPrefix?_char_eq_some cut
    rw [String.copy_toSlice] at text
    have mem : '-' ∈ n.repr.toList := by simp [text]
    rw [Nat.toList_repr] at mem
    have digit := Nat.isDigit_of_mem_toDigits (by decide) (by decide) mem
    exact absurd digit (by decide)
  next =>
    rw [toNat?_of_copy String.copy_toSlice]
    rfl

theorem toInt?_minus_repr (n : Nat) : ("-" ++ n.repr).toInt? = some (-n : Int) := by
  show Slice.toInt? _ = _
  unfold Slice.toInt?
  split
  next rest cut =>
    have text := Slice.eq_append_of_dropPrefix?_char_eq_some cut
    have digits : rest.copy = n.repr := by simpa using text.symm
    rw [toNat?_of_copy digits, Option.map_some, Int.negOfNat_eq]
    rfl
  next cut =>
    rw [Slice.dropPrefix?_eq_none_iff, Slice.startsWith_char_eq_false_iff_forall_append] at cut
    exact absurd String.copy_toSlice (cut n.repr)

/-- The text of an integer is read as this integer. -/
theorem toInt?_toString (n : Int) : (toString n).toInt? = some n := by
  cases n with
  | ofNat n => exact toInt?_repr n
  | negSucc n => exact toInt?_minus_repr (n + 1)

end CaseGen
