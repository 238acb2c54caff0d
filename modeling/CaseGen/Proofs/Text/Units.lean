import CaseGen.Proofs.Text.Order
import CaseGen.Text.Units

/-! # What is written for units

    The text that is written for the units of a text is that text again.
    Units that are put behind each other are written behind each other,
    unless a surrogate pair comes about where they meet.  A character that
    is a single unit is never replaced, so a text written for units has
    such a character exactly where the units have it.

    * `charsOf_unitsOf_append`, `written_unitsOf` — the units of a text
    * `charsOf_append_unitsOf`, `written_append_unitsOf` — a text behind units
    * `exists_charsOf_iff`, `forall_charsOf_iff` — properties of characters of one unit
    * `head?_charsOf_iff`, `getLast?_written_iff` — the first and the last character
    * `singleLine_written_iff`, `singleItem_written_iff`, `identifier_written_iff` — forms of text -/

namespace CaseGen.Text

variable {u v : Units} {a b : UInt16} {s : String} {P : Char → Prop}

/-! ## Section 1: Units of characters -/

theorem charsOf_cons_of_not_high (h : ¬ IsHigh a) (u : Units) :
    charsOf (a :: u) = loneChar a :: charsOf u := by
  cases u with
  | nil => rfl
  | cons b u =>
    rw [charsOf, if_neg]
    intro pair
    exact h pair.1

theorem charsOf_cons_of_not_low (h : ¬ IsLow b) (a : UInt16) (u : Units) :
    charsOf (a :: b :: u) = loneChar a :: charsOf (b :: u) := by
  rw [charsOf, if_neg]
  intro pair
  exact h pair.2

theorem charsOf_pair (high : IsHigh a) (low : IsLow b) (u : Units) :
    charsOf (a :: b :: u) = pairChar a b :: charsOf u := by
  rw [charsOf, if_pos ⟨high, low⟩]

/-- A character is one unit that is no surrogate, or a pair of surrogates. -/
theorem charUnits_cases (c : Char) :
    (∃ a, (charUnits c).map UInt16.ofNat = [a] ∧ ¬ IsHigh a ∧ ¬ IsLow a ∧ loneChar a = c) ∨
      ∃ a b, (charUnits c).map UInt16.ofNat = [a, b] ∧ IsHigh a ∧ IsLow b ∧ pairChar a b = c := by
  have valid : c.toNat < 0xD800 ∨ (0xDFFF < c.toNat ∧ c.toNat < 0x110000) := c.valid
  have unit {n : Nat} (lt : n < 65536) : (UInt16.ofNat n).toNat = n := UInt16.toNat_ofNat_of_lt' lt
  unfold charUnits
  split
  · next small =>
    have number := unit small
    have high : ¬ IsHigh (UInt16.ofNat c.toNat) := by
      unfold IsHigh
      omega
    have low : ¬ IsLow (UInt16.ofNat c.toNat) := by
      unfold IsLow
      omega
    refine .inl ⟨_, rfl, high, low, ?_⟩
    rw [loneChar, if_neg (not_or.mpr ⟨high, low⟩), number, Char.ofNat_toNat]
  · next large =>
    -- both halves are in the range of their surrogates, and together they give the character
    have high := unit (n := 0xD800 + (c.toNat - 0x10000) / 0x400) (by omega)
    have low := unit (n := 0xDC00 + (c.toNat - 0x10000) % 0x400) (by omega)
    have number : 0x10000 + (0xD800 + (c.toNat - 0x10000) / 0x400 - 0xD800) * 0x400 +
        (0xDC00 + (c.toNat - 0x10000) % 0x400 - 0xDC00) = c.toNat := by omega
    refine .inr ⟨_, _, rfl, ?_, ?_, ?_⟩
    · unfold IsHigh
      omega
    · unfold IsLow
      omega
    · rw [pairChar, high, low, number, Char.ofNat_toNat]

/-- The units of a character are read as this character, whatever comes behind them. -/
theorem charsOf_charUnits_append (c : Char) (u : Units) :
    charsOf ((charUnits c).map UInt16.ofNat ++ u) = c :: charsOf u := by
  rcases charUnits_cases c with ⟨a, units, high, -, rfl⟩ | ⟨a, b, units, high, low, rfl⟩
  · rw [units]
    exact charsOf_cons_of_not_high high u
  · rw [units]
    exact charsOf_pair high low u

/-- The units of a text are read as this text, whatever comes behind them. -/
theorem charsOf_unitsOf_append (s : String) (u : Units) :
    charsOf (unitsOf s ++ u) = s.toList ++ charsOf u := by
  unfold unitsOf codeUnits
  induction s.toList with
  | nil => rfl
  | cons c cs ih =>
    rw [List.flatMap_cons, List.map_append, List.append_assoc, charsOf_charUnits_append, ih]
    rfl

theorem written_unitsOf_append (s : String) (u : Units) :
    written (unitsOf s ++ u) = s ++ written u := by
  rw [written, charsOf_unitsOf_append, String.ofList_append, String.ofList_toList]
  rfl

/-- A text is written as it is. -/
theorem written_unitsOf (s : String) : written (unitsOf s) = s := by
  have alone := written_unitsOf_append s []
  rw [List.append_nil] at alone
  exact alone.trans String.append_empty

/-! ## Section 2: Units behind each other -/

/-- No pair comes about where the second units begin with none of its second halves. -/
theorem charsOf_append (h : ∀ a ∈ v.head?, ¬ IsLow a) (u : Units) :
    charsOf (u ++ v) = charsOf u ++ charsOf v := by
  fun_induction charsOf u with
  | case1 => rfl
  | case2 a =>
    cases v with
    | nil => rfl
    | cons b v => exact charsOf_cons_of_not_low (h b rfl) a v
  | case3 a b u pair ih =>
    show charsOf (a :: b :: (u ++ v)) = _
    rw [charsOf_pair pair.1 pair.2, ih]
    rfl
  | case4 a b u apart ih =>
    show charsOf (a :: b :: (u ++ v)) = _
    rw [charsOf, if_neg apart]
    exact congrArg (loneChar a :: ·) ih

/-- The units of a text do not begin with the second half of a pair. -/
theorem not_low_head_unitsOf (s : String) : ∀ a ∈ (unitsOf s).head?, ¬ IsLow a := by
  unfold unitsOf codeUnits
  cases s.toList with
  | nil => simp
  | cons c cs =>
    intro a first
    rw [List.flatMap_cons, List.map_append] at first
    rcases charUnits_cases c with ⟨b, units, -, low, -⟩ | ⟨b, b', units, high, -, -⟩
    · rw [units] at first
      obtain rfl : b = a := Option.some.inj first
      exact low
    · rw [units] at first
      obtain rfl : b = a := Option.some.inj first
      unfold IsHigh at high
      unfold IsLow
      omega

theorem head?_unitsOf_append (ne : s ≠ "") (u : Units) :
    (unitsOf s ++ u).head? = (unitsOf s).head? := by
  have filled : unitsOf s ≠ [] := by
    intro empty
    apply ne
    rw [← written_unitsOf s, empty]
    rfl
  exact List.head?_append_of_ne_nil _ filled

/-- Units, a text that is not empty, and more units are written behind each other. -/
theorem written_append_unitsOf_append (ne : s ≠ "") (u v : Units) :
    written (u ++ (unitsOf s ++ v)) = written u ++ (s ++ written v) := by
  have apart : ∀ a ∈ (unitsOf s ++ v).head?, ¬ IsLow a := by
    rw [head?_unitsOf_append ne]
    exact not_low_head_unitsOf s
  rw [← written_unitsOf_append, written, charsOf_append apart, String.ofList_append]
  rfl

theorem written_append_unitsOf (u : Units) (s : String) :
    written (u ++ unitsOf s) = written u ++ s := by
  rw [written, charsOf_append (not_low_head_unitsOf s), String.ofList_append]
  exact congrArg (written u ++ ·) (written_unitsOf s)

/-! ## Section 3: Characters of one unit -/

theorem toNat_ofNat {n : Nat} (valid : n.isValidChar) : (Char.ofNat n).toNat = n := by
  rw [Char.ofNat, dif_pos valid]
  rfl

/-- A replaced unit is no character, and any other unit is the one that it is read as. -/
theorem ofUnit_iff (small : ∀ c, P c → c.toNat < 0x80) : OfUnit P a ↔ P (loneChar a) := by
  have lt := a.toNat_lt
  unfold OfUnit loneChar
  constructor
  · intro h
    obtain ⟨c, same, holds⟩ := h
    have ascii := small c holds
    rw [if_neg (by unfold IsHigh IsLow; omega), ← same, Char.ofNat_toNat]
    exact holds
  · intro holds
    split at holds
    · have ascii := small _ holds
      rw [toNat_ofNat (by decide)] at ascii
      omega
    · next plain =>
      unfold IsHigh IsLow at plain
      exact ⟨_, toNat_ofNat (by unfold Nat.isValidChar; omega), holds⟩

/-- A pair is no character of one unit, and neither half is one. -/
theorem not_of_pair (small : ∀ c, P c → c.toNat < 0x80) (high : IsHigh a) (low : IsLow b) :
    ¬ P (pairChar a b) ∧ ¬ OfUnit P a ∧ ¬ OfUnit P b := by
  unfold IsHigh at high
  unfold IsLow at low
  refine ⟨?_, ?_, ?_⟩
  · intro holds
    have ascii := small _ holds
    rw [pairChar, toNat_ofNat (by unfold Nat.isValidChar; omega)] at ascii
    omega
  · intro h
    obtain ⟨c, same, holds⟩ := h
    have ascii := small c holds
    omega
  · intro h
    obtain ⟨c, same, holds⟩ := h
    have ascii := small c holds
    omega

/-- Some character that is written has the property exactly if some unit is such a character. -/
theorem exists_charsOf_iff (small : ∀ c, P c → c.toNat < 0x80) (u : Units) :
    (∃ c ∈ charsOf u, P c) ↔ ∃ a ∈ u, OfUnit P a := by
  fun_induction charsOf u with
  | case1 => simp
  | case2 a => simp [ofUnit_iff small]
  | case3 a b u pair ih =>
    obtain ⟨no, first, second⟩ := not_of_pair small pair.1 pair.2
    simp only [List.exists_mem_cons_iff, ih, no, first, second, false_or]
  | case4 a b u apart ih =>
    rw [List.exists_mem_cons_iff, List.exists_mem_cons_iff, ih, ofUnit_iff small]

/-- All characters that are written have the property exactly if all units are such characters. -/
theorem forall_charsOf_iff (small : ∀ c, P c → c.toNat < 0x80) (u : Units) :
    (∀ c ∈ charsOf u, P c) ↔ ∀ a ∈ u, OfUnit P a := by
  fun_induction charsOf u with
  | case1 => simp
  | case2 a => simp [ofUnit_iff small]
  | case3 a b u pair ih =>
    obtain ⟨no, first, -⟩ := not_of_pair small pair.1 pair.2
    simp only [List.forall_mem_cons, no, first, false_and]
  | case4 a b u apart ih =>
    rw [List.forall_mem_cons, List.forall_mem_cons, ih, ofUnit_iff small]

/-- The first character that is written has the property exactly if the first unit is such a
    character. -/
theorem head?_charsOf_iff (small : ∀ c, P c → c.toNat < 0x80) (u : Units) :
    (∃ c ∈ (charsOf u).head?, P c) ↔ ∃ a ∈ u.head?, OfUnit P a := by
  fun_induction charsOf u with
  | case1 => simp
  | case2 a => simp [ofUnit_iff small]
  | case3 a b u pair ih =>
    obtain ⟨no, first, -⟩ := not_of_pair small pair.1 pair.2
    simp [no, first]
  | case4 a b u apart ih => simp [ofUnit_iff small]

theorem charsOf_ne_nil (u : Units) : charsOf (a :: u) ≠ [] := by
  cases u with
  | nil => simp [charsOf]
  | cons b u =>
    unfold charsOf
    split <;> simp

/-- The last character that is written has the property exactly if the last unit is such a
    character. -/
theorem getLast?_charsOf_iff (small : ∀ c, P c → c.toNat < 0x80) (u : Units) :
    (∃ c ∈ (charsOf u).getLast?, P c) ↔ ∃ a ∈ u.getLast?, OfUnit P a := by
  fun_induction charsOf u with
  | case1 => simp
  | case2 a => simp [ofUnit_iff small]
  | case3 a b u pair ih =>
    cases u with
    | nil =>
      obtain ⟨no, -, second⟩ := not_of_pair small pair.1 pair.2
      simp [charsOf, no, second]
    | cons c u =>
      rw [List.getLast?_cons_of_ne_nil (charsOf_ne_nil u), ih]
      simp only [List.getLast?_cons_cons]
  | case4 a b u apart ih =>
    rw [List.getLast?_cons_of_ne_nil (charsOf_ne_nil u), ih]
    simp only [List.getLast?_cons_cons]

/-! ## Section 4: Forms of text -/

theorem toList_written (u : Units) : (written u).toList = charsOf u := String.toList_ofList

theorem written_eq_empty_iff {u : Units} : written u = "" ↔ u = [] := by
  rw [← String.toList_inj, toList_written]
  fun_cases charsOf u <;> simp

theorem toNat_lt_of_lineBreak {c : Char} (h : IsLineBreak c) : c.toNat < 0x80 := by
  rcases h with rfl | rfl <;> decide

/-- A slash ends what is written exactly if it ends the units. -/
theorem getLast?_written_iff (u : Units) :
    (written u).toList.getLast? = some '/' ↔ u.getLast? = some 0x2F := by
  have last := getLast?_charsOf_iff (P := (· = '/')) (by rintro c rfl; decide) u
  have slash {a : UInt16} : OfUnit (· = '/') a ↔ a = 0x2F := by
    unfold OfUnit
    rw [← UInt16.toNat_inj]
    constructor
    · rintro ⟨c, same, rfl⟩
      exact same.symm
    · intro same
      exact ⟨'/', same.symm, rfl⟩
  rw [toList_written]
  simpa [slash] using last

theorem toNat_lt_of_namePart {c : Char} (h : IsNamePart c) : c.toNat < 0x80 := by
  -- letters and digits are ranges of characters, and each ends with one below
  have below {last : Char} (le : c.val ≤ last.val) (small : last.toNat < 0x80) : c.toNat < 0x80 :=
    Nat.lt_of_le_of_lt (UInt32.le_iff_toNat_le.mp le) small
  rcases h with (letter | rfl) | digit
  · rcases (Bool.or_eq_true _ _).mp letter with upper | lower
    · have range : 'A'.val ≤ c.val ∧ c.val ≤ 'Z'.val := of_decide_eq_true upper
      exact below range.2 (by decide)
    · have range : c.val ≤ 'z'.val := of_decide_eq_true ((Bool.and_eq_true _ _).mp lower).2
      exact below range (by decide)
  · decide
  · have range : c.val ≤ '9'.val := of_decide_eq_true ((Bool.and_eq_true _ _).mp digit).2
    exact below range (by decide)

theorem singleLine_written_iff (u : Units) : SingleLine (written u) ↔ UnitLine u := by
  have breaks := exists_charsOf_iff (fun _ => toNat_lt_of_lineBreak) u
  unfold SingleLine UnitLine
  rw [toList_written]
  grind

theorem singleItem_written_iff (u : Units) : SingleItem (written u) ↔ UnitItem u := by
  have ends := exists_charsOf_iff (P := fun c => IsLineBreak c ∨ c = ':') (by
    intro c h
    rcases h with lineBreak | rfl
    · exact toNat_lt_of_lineBreak lineBreak
    · decide) u
  unfold SingleItem UnitItem
  rw [toList_written]
  grind

theorem identifier_written_iff (u : Units) : Identifier (written u) ↔ UnitName u := by
  have start := head?_charsOf_iff (fun c h => toNat_lt_of_namePart (.inl h)) u
  have parts := forall_charsOf_iff (fun _ => toNat_lt_of_namePart) u
  unfold Identifier UnitName
  rw [toList_written, ← start, ← parts]
  constructor
  · intro h
    obtain ⟨c, first, starts, all⟩ := h
    exact ⟨⟨c, first, starts⟩, all⟩
  · intro h
    obtain ⟨⟨c, first, starts⟩, all⟩ := h
    exact ⟨c, first, starts, all⟩

end CaseGen.Text
