import CaseGen.Text.Order
import Mathlib.Data.List.Nodup

/-! # One order of texts

    No two texts have the same units, so the order by units is a strict
    total order.  Texts in increasing order are then determined by which
    they are: however a list is sorted by it, the result is the same.  The
    order is not that of the code points: where two texts part, a character
    beyond the 16-bit range comes before those behind the surrogates.

    * `codeUnits_injective`        — different texts have different units
    * `Before.trans`, `Before.total`, ... — a strict total order
    * `before_at_difference_iff`          — the order in terms of code points
    * `sortBy_perm`, `Sorted.sortBy`      — sorting gives the same items, none after a later one
    * `Increasing.ext`                    — what is in an increasing list determines it
    * `eq_sort_iff`, `Increasing.eq_iff`  — no other arrangement is sorted -/

namespace CaseGen.Text

/-! ## Section 1: Units -/

/-- A character of one unit is no surrogate, so the units of a text begin with those of one
    character only. -/
theorem charUnits_append_inj {c d : Char} {x y : List Nat}
    (h : charUnits c ++ x = charUnits d ++ y) : c = d ∧ x = y := by
  have hc : c.toNat < 0xD800 ∨ (0xDFFF < c.toNat ∧ c.toNat < 0x110000) := c.valid
  have hd : d.toNat < 0xD800 ∨ (0xDFFF < d.toNat ∧ d.toNat < 0x110000) := d.valid
  rw [← Char.toNat_inj]
  unfold charUnits at h
  split at h <;> split at h <;>
    simp only [List.cons_append, List.nil_append, List.cons.injEq] at h
  · exact h
  · omega
  · omega
  · obtain ⟨high, low, rest⟩ := h
    exact ⟨by omega, rest⟩

theorem flatMap_charUnits_injective {cs ds : List Char}
    (h : cs.flatMap charUnits = ds.flatMap charUnits) : cs = ds := by
  induction cs generalizing ds with
  | nil =>
    cases ds with
    | nil => rfl
    | cons d ds =>
      rw [List.flatMap_nil, List.flatMap_cons, eq_comm, List.append_eq_nil_iff] at h
      exact absurd h.1 (charUnits_ne_nil d)
  | cons c cs ih =>
    cases ds with
    | nil =>
      rw [List.flatMap_nil, List.flatMap_cons, List.append_eq_nil_iff] at h
      exact absurd h.1 (charUnits_ne_nil c)
    | cons d ds =>
      rw [List.flatMap_cons, List.flatMap_cons] at h
      obtain ⟨rfl, rest⟩ := charUnits_append_inj h
      rw [ih rest]

/-- Different texts have different units. -/
theorem codeUnits_injective : Function.Injective codeUnits := by
  intro s t h
  exact String.toList_inj.mp (flatMap_charUnits_injective h)

/-! ## Section 2: The order -/

variable {s t u : String}

theorem Before.irrefl (s : String) : ¬ Before s s := List.lt_irrefl _

theorem Before.trans (h : Before s t) (h' : Before t u) : Before s u := List.lt_trans h h'

theorem Before.asymm (h : Before s t) : ¬ Before t s := List.lt_asymm h

theorem Before.ne (h : Before s t) : s ≠ t := by
  rintro rfl
  exact Before.irrefl s h

/-- Of two different texts one comes before the other. -/
theorem Before.total (h : s ≠ t) : Before s t ∨ Before t s := by
  by_contra none
  obtain ⟨not, not'⟩ := not_or.mp none
  exact h (codeUnits_injective (List.le_antisymm (List.not_lt.mp not') (List.not_lt.mp not)))

theorem not_before : ¬ Before s t ↔ s = t ∨ Before t s := by
  constructor
  · intro not
    by_cases e : s = t
    · exact .inl e
    · exact .inr ((Before.total e).resolve_left not)
  · rintro (rfl | after)
    · exact Before.irrefl s
    · exact after.asymm

/-- The character stands behind the surrogates in the 16-bit range. -/
def BehindSurrogates (c : Char) : Prop := 0xE000 ≤ c.toNat ∧ c.toNat < 0x10000

instance (c : Char) : Decidable (BehindSurrogates c) := inferInstanceAs (Decidable (_ ∧ _))

/-- The units of two characters are ordered as the code points are, except between a character
    of two units and one behind the surrogates. -/
theorem charUnits_lt_iff {c d : Char} : charUnits c < charUnits d ↔
    if (BehindSurrogates c ∧ 0x10000 ≤ d.toNat) ∨ (0x10000 ≤ c.toNat ∧ BehindSurrogates d)
    then d.toNat < c.toNat else c.toNat < d.toNat := by
  have hc : c.toNat < 0xD800 ∨ (0xDFFF < c.toNat ∧ c.toNat < 0x110000) := c.valid
  have hd : d.toNat < 0xD800 ∨ (0xDFFF < d.toNat ∧ d.toNat < 0x110000) := d.valid
  unfold charUnits BehindSurrogates
  split <;> split <;>
    simp only [List.cons_lt_cons_iff, List.not_lt_nil, List.nil_lt_cons, and_false, or_false,
      and_true] <;>
    split <;> omega

/-- Where two texts part, the first characters that differ decide. -/
theorem before_at_difference_iff (p x y : List Char) {c d : Char} (h : c ≠ d) :
    Before (String.ofList (p ++ c :: x)) (String.ofList (p ++ d :: y)) ↔
      if (BehindSurrogates c ∧ 0x10000 ≤ d.toNat) ∨ (0x10000 ≤ c.toNat ∧ BehindSurrogates d)
      then d.toNat < c.toNat else c.toNat < d.toNat := by
  rw [← charUnits_lt_iff]
  simp only [Before, codeUnits, String.toList_ofList, List.flatMap_append, List.flatMap_cons,
    append_lt_append_iff, charUnits_append_lt_iff h]

/-! ## Section 3: Sorting -/

variable {α : Type} {key : α → String} {a : α} {l l' : List α}

/-- No item comes before an earlier one. -/
def Sorted (key : α → String) (l : List α) : Prop :=
  l.Pairwise fun a b => ¬ Before (key b) (key a)

/-- Each item comes before the later ones. -/
def Increasing (key : α → String) (l : List α) : Prop :=
  l.Pairwise fun a b => Before (key a) (key b)

instance (key : α → String) (l : List α) : Decidable (Sorted key l) :=
  inferInstanceAs (Decidable (l.Pairwise _))

instance (key : α → String) (l : List α) : Decidable (Increasing key l) :=
  inferInstanceAs (Decidable (l.Pairwise _))

theorem insertBy_perm (key : α → String) (a : α) (l : List α) : (insertBy key a l).Perm (a :: l) := by
  induction l with
  | nil => exact .refl _
  | cons b l ih =>
    unfold insertBy
    split
    · exact (ih.cons b).trans (.swap a b l)
    · exact .refl _

/-- Sorting keeps the items. -/
theorem sortBy_perm (key : α → String) (l : List α) : (sortBy key l).Perm l := by
  induction l with
  | nil => exact .refl _
  | cons a l ih => exact (insertBy_perm key a _).trans (ih.cons a)

theorem Sorted.insertBy (h : Sorted key l) (a : α) : Sorted key (insertBy key a l) := by
  induction l with
  | nil => exact List.pairwise_singleton _ a
  | cons b l ih =>
    obtain ⟨first, rest⟩ := List.pairwise_cons.mp h
    unfold Text.insertBy
    split
    · next before =>
      refine List.pairwise_cons.mpr ⟨?_, ih rest⟩
      intro d hd
      rcases List.mem_cons.mp ((insertBy_perm key a l).mem_iff.mp hd) with rfl | hd
      · exact before.asymm
      · exact first d hd
    · next after =>
      refine List.pairwise_cons.mpr ⟨?_, h⟩
      intro d hd
      rcases List.mem_cons.mp hd with rfl | hd
      · exact after
      · -- `a` is not after `b`, and `b` is not after `d`
        rcases not_before.mp after with same | before
        · rw [← same]
          exact first d hd
        · exact fun h => first d hd (h.trans before)

theorem Sorted.sortBy (key : α → String) (l : List α) : Sorted key (sortBy key l) := by
  induction l with
  | nil => exact .nil
  | cons a l ih => exact ih.insertBy a

/-- Sorting leaves a sorted list as it is. -/
theorem Sorted.sortBy_eq (h : Sorted key l) : Text.sortBy key l = l := by
  induction l with
  | nil => rfl
  | cons a l ih =>
    obtain ⟨first, rest⟩ := List.pairwise_cons.mp h
    rw [Text.sortBy, ih rest]
    cases l with
    | nil => rfl
    | cons b l => exact if_neg (first b List.mem_cons_self)

/-- If no two items have the same key, a sorted list is in increasing order. -/
theorem Sorted.increasing (h : Sorted key l) (distinct : (l.map key).Nodup) : Increasing key l := by
  rw [List.Nodup, List.pairwise_map] at distinct
  refine (List.Pairwise.and h distinct).imp ?_
  intro a b both
  obtain ⟨sorted, ne⟩ := both
  exact (not_before.mp sorted).resolve_left ne.symm

/-- If no two items have the same key, sorting brings them into increasing order. -/
theorem Increasing.sortBy (distinct : (l.map key).Nodup) : Increasing key (sortBy key l) :=
  (Sorted.sortBy key l).increasing (((sortBy_perm key l).map key).nodup_iff.mpr distinct)

theorem Increasing.sorted (h : Increasing key l) : Sorted key l := h.imp Before.asymm

theorem Increasing.nodup (h : Increasing key l) : (l.map key).Nodup :=
  List.pairwise_map.mpr (h.imp Before.ne)

/-- What is in an increasing list determines it. -/
theorem Increasing.ext (h : Increasing key l) (h' : Increasing key l') (same : ∀ a, a ∈ l ↔ a ∈ l') :
    l = l' := by
  have perm : l.Perm l' :=
    (List.perm_ext_iff_of_nodup h.nodup.of_map h'.nodup.of_map).mpr same
  exact perm.eq_of_pairwise (fun a b _ _ ab ba => absurd ba ab.asymm) h h'

/-- Of items in increasing order there is no other arrangement in which none comes before an
    earlier one. -/
theorem Increasing.eq_iff (h : Increasing key l) : l' = l ↔ Sorted key l' ∧ l'.Perm l := by
  constructor
  · rintro rfl
    exact ⟨h.sorted, .refl _⟩
  · intro h'
    obtain ⟨sorted, perm⟩ := h'
    have distinct : (l'.map key).Nodup := (perm.map key).nodup_iff.mpr h.nodup
    exact (sorted.increasing distinct).ext h fun a => perm.mem_iff

/-- Of texts, repeated ones included, there is one sorted arrangement: two texts of which neither
    comes before the other are the same. -/
theorem eq_sort_iff {l texts : List String} : l = sort texts ↔ Sorted id l ∧ l.Perm texts := by
  constructor
  · rintro rfl
    exact ⟨Sorted.sortBy id texts, sortBy_perm id texts⟩
  · intro h
    obtain ⟨sorted, perm⟩ := h
    refine (perm.trans (sortBy_perm id texts).symm).eq_of_pairwise ?_ sorted (Sorted.sortBy id texts)
    intro s t _ _ first second
    exact (not_before.mp second).resolve_right first

/-- Sorting does not depend on the order in which the texts are given. -/
theorem sort_congr {texts texts' : List String} (perm : texts.Perm texts') :
    sort texts = sort texts' :=
  eq_sort_iff.mpr ⟨Sorted.sortBy id texts, (sortBy_perm id texts).trans perm⟩

end CaseGen.Text
