/-! # Order of texts by 16-bit units

    Names are compared unit by unit, where a character beyond the 16-bit
    range counts as its two surrogate units.  The order differs from the
    order by code point: a character that needs two units sorts below the
    private-use and full-width characters at the end of the 16-bit range.

    * `codeUnits`  — the units of a text
    * `Before`     — strict lexicographic order on the units, decided character by character
    * `sortBy`     — stable insertion sort by a text key -/

namespace CaseGen.Text

/-! ## Section 1: Units -/

/-- The units of one character: itself, or a high and a low surrogate. -/
def charUnits (c : Char) : List Nat :=
  if c.toNat < 0x10000 then [c.toNat]
  else [0xD800 + (c.toNat - 0x10000) / 0x400, 0xDC00 + (c.toNat - 0x10000) % 0x400]

/-- The units of a text, in order. -/
def codeUnits (s : String) : List Nat := s.toList.flatMap charUnits

/-! ## Section 2: Order -/

/-- The first text comes strictly before the second one, unit by unit. -/
def Before (s t : String) : Prop := codeUnits s < codeUnits t

/-- The units of the first characters come before those of the second ones.  Characters that
    agree are passed over, and the first ones that differ decide. -/
def unitsBefore : List Char → List Char → Bool
  | _, [] => false
  | [], _ :: _ => true
  | c :: cs, d :: ds =>
    if c = d then unitsBefore cs ds else decide (charUnits c < charUnits d)

theorem charUnits_ne_nil (c : Char) : charUnits c ≠ [] := by
  unfold charUnits
  split <;> simp

theorem append_lt_append_iff (u x y : List Nat) : u ++ x < u ++ y ↔ x < y := by
  induction u with
  | nil => rfl
  | cons a u ih => simp [ih]

/-- A character of one unit is no surrogate, so the units of two different characters part
    before either list ends. -/
theorem charUnits_append_lt_iff {c d : Char} (h : c ≠ d) (x y : List Nat) :
    charUnits c ++ x < charUnits d ++ y ↔ charUnits c < charUnits d := by
  have hc : c.toNat < 0xD800 ∨ (0xDFFF < c.toNat ∧ c.toNat < 0x110000) := c.valid
  have hd : d.toNat < 0xD800 ∨ (0xDFFF < d.toNat ∧ d.toNat < 0x110000) := d.valid
  have differ : c.toNat ≠ d.toNat := fun e => h (Char.toNat_inj.mp e)
  unfold charUnits
  split <;> split <;>
    simp only [List.cons_append, List.nil_append, List.cons_lt_cons_iff] <;> omega

theorem unitsBefore_iff (cs ds : List Char) :
    unitsBefore cs ds = true ↔ cs.flatMap charUnits < ds.flatMap charUnits := by
  fun_induction unitsBefore cs ds with
  | case1 => simp
  | case2 d ds =>
    obtain ⟨u, l, h⟩ := List.exists_cons_of_ne_nil (charUnits_ne_nil d)
    simp [h]
  | case3 c cs ds ih => simp [append_lt_append_iff, ih]
  | case4 c cs d ds h => simp [charUnits_append_lt_iff h]

instance (s t : String) : Decidable (Before s t) :=
  decidable_of_iff (unitsBefore s.toList t.toList = true) (unitsBefore_iff s.toList t.toList)

/-! ## Section 3: Sorting -/

/-- Puts an element in front of the first one whose key is not before its own. -/
def insertBy {α : Type} (key : α → String) (a : α) : List α → List α
  | [] => [a]
  | b :: l => if Before (key b) (key a) then b :: insertBy key a l else a :: b :: l

/-- Sorts by a text key; elements with the same key keep their order. -/
def sortBy {α : Type} (key : α → String) : List α → List α
  | [] => []
  | a :: l => insertBy key a (sortBy key l)

/-- The texts in increasing order, repeats kept. -/
def sort (l : List String) : List String := sortBy id l

end CaseGen.Text
