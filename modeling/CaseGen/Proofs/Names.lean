import CaseGen.Proofs.Command.Naming
import CaseGen.Proofs.Target.Registry

/-! # Names in one order

    The names of the targets of a table, the targets that a command line
    selects if it names none, and the registered classes below a parent are
    each sorted on their own, the last ones whenever a class is added.
    Since the order is total and no two names are alike in it, each of the
    three is the only arrangement that is sorted, and they agree.

    * `Suite.eq_targetNames_iff`     — the names of a table are determined by its keys
    * `Suite.targetNames_congr`      — however the table is put together
    * `Command.resolveTargets_nil`   — what is selected by no text
    * `names_in_one_order`           — the order, and the three lists that it sorts -/

namespace CaseGen

open Text Command

variable {α β : Type} {s : Suite α}

/-! ## Section 1: The names of a table -/

/-- The names of the targets are the keys of the table in increasing order. -/
theorem Suite.eq_targetNames_iff (distinct : (s.table.map Prod.fst).Nodup) {l : List String} :
    l = s.targetNames ↔ Increasing id l ∧ l.Perm (s.table.map Prod.fst) := by
  rw [targetNames, eq_sort_iff]
  apply and_congr_left
  intro perm
  constructor
  · intro sorted
    apply sorted.increasing
    rw [List.map_id]
    exact perm.nodup_iff.mpr distinct
  · exact Increasing.sorted

/-- The order in which a table is put together does not show in the names of the targets. -/
theorem Suite.targetNames_congr {s' : Suite β}
    (perm : (s'.table.map Prod.fst).Perm (s.table.map Prod.fst)) :
    s'.targetNames = s.targetNames :=
  sort_congr perm

/-! ## Section 2: The targets of a command line -/

theorem Command.resolveTargets_nil (available : List String) :
    resolveTargets [] available = sort available := rfl

/-! ## Section 3: One order -/

/-- The order by 16-bit units is a strict total order.  Where two texts part it is the order of the
    code points, except that it is turned around between a character beyond the 16-bit range and one
    behind the surrogates.  By it, the names of a table are the only arrangement of the keys that
    increases; no text on a command line selects the only sorted arrangement of what is available;
    and after any calls, the registrations accepted below a parent stand in the only arrangement in
    which no name comes before an earlier one, which is that of the names on a command line. -/
theorem names_in_one_order :
    -- the order
    (∀ s, ¬ Before s s) ∧
    (∀ s t u, Before s t → Before t u → Before s u) ∧
    (∀ s t, s ≠ t → Before s t ∨ Before t s) ∧
    (∀ (p x y : List Char) (c d : Char), c ≠ d →
      (Before (String.ofList (p ++ c :: x)) (String.ofList (p ++ d :: y)) ↔
        if (BehindSurrogates c ∧ 0x10000 ≤ d.toNat) ∨ (0x10000 ≤ c.toNat ∧ BehindSurrogates d)
        then d.toNat < c.toNat else c.toNat < d.toNat)) ∧
    -- the names of a table
    (∀ (α : Type) (suite : Suite α), (suite.table.map Prod.fst).Nodup →
      (∀ l, l = suite.targetNames ↔ Increasing id l ∧ l.Perm (suite.table.map Prod.fst)) ∧
      ∀ (β : Type) (suite' : Suite β),
        (suite'.table.map Prod.fst).Perm (suite.table.map Prod.fst) →
          suite'.targetNames = suite.targetNames) ∧
    -- the targets of a command line
    (∀ available l, l = resolveTargets [] available ↔ Sorted id l ∧ l.Perm available) ∧
    (∀ available available', available'.Perm available →
      resolveTargets [] available' = resolveTargets [] available) ∧
    (∀ (α : Type) (suite : Suite α),
      resolveTargets [] suite.targetNames = suite.targetNames) ∧
    -- the classes below a parent
    ∀ calls parent, let siblings := (({} : Registry).after calls).childrenOf parent
      (∀ e, e ∈ siblings ↔ e ∈ ({} : Registry).accepted calls ∧ e.target.parent? = parent) ∧
      Increasing Registration.name siblings ∧
      (∀ l, l = siblings ↔ Sorted Registration.name l ∧ l.Perm siblings) ∧
      ∀ names, names.Perm (siblings.map Registration.name) →
        resolveTargets [] names = siblings.map Registration.name := by
  refine ⟨Before.irrefl, fun _ _ _ => Before.trans, fun _ _ => Before.total, ?_, ?_, ?_, ?_, ?_, ?_⟩
  · intro p x y c d differ
    exact before_at_difference_iff p x y differ
  · intro α suite distinct
    exact ⟨fun l => suite.eq_targetNames_iff distinct, fun β suite' => Suite.targetNames_congr⟩
  · intro available l
    rw [resolveTargets_nil]
    exact eq_sort_iff
  · intro available available' perm
    rw [resolveTargets_nil, resolveTargets_nil]
    exact sort_congr perm
  · intro α suite
    exact suite.resolveTargets_none
  · intro calls parent siblings
    have held := Registry.holds_after calls
    have increasing : Increasing Registration.name siblings := held.increasing parent
    refine ⟨held.children parent, increasing, fun l => increasing.eq_iff, ?_⟩
    intro names perm
    have sorted : Sorted id (siblings.map Registration.name) :=
      List.pairwise_map.mpr increasing.sorted
    rw [resolveTargets_nil]
    exact (eq_sort_iff.mpr ⟨sorted, perm.symm⟩).symm

/-- A character beyond the 16-bit range and one behind the surrogates, as keys of a table that is
    put together in two ways, on a command line, and as names of two classes. -/
theorem names_in_one_order_beyond_sixteen_bits :
    let producer : Unit → Production := fun _ => { steps := [] }
    let suite : Suite Unit := ⟨"", "", [("\uE000", producer), ("😀", producer), ("", producer)]⟩
    let suite' : Suite Unit := ⟨"", "", [("", producer), ("\uE000", producer), ("😀", producer)]⟩
    let a : TargetClass := .sub 0 .base { name := "\uE000" }
    let b : TargetClass := .sub 1 .base { name := "😀" }
    let calls : List Registry.Call := [.register a, .register b]
    '\uE000'.toNat < '😀'.toNat ∧ Before "😀" "\uE000" ∧
      suite.targetNames = ["", "😀", "\uE000"] ∧ suite'.targetNames = ["", "😀", "\uE000"] ∧
      resolveTargets [] ["\uE000", "😀", "\uE000"] = ["😀", "\uE000", "\uE000"] ∧
      (({} : Registry).after calls).childrenOf (some .base) = [⟨"😀", b⟩, ⟨"\uE000", a⟩] ∧
      resolveTargets [] ["\uE000", "😀"] = ["😀", "\uE000"] := by
  intro producer suite suite' a b calls
  obtain ⟨-, -, -, parting, tables, selected, -, -, lists⟩ := names_in_one_order
  obtain ⟨names, rebuilt⟩ := tables Unit suite (by decide)
  obtain ⟨-, -, -, agree⟩ := lists calls (some .base)
  have increasing : Increasing id ["", "😀", "\uE000"] := by decide
  have sorted : Sorted id ["😀", "\uE000", "\uE000"] := by decide
  have listed : (({} : Registry).after calls).childrenOf (some .base) =
      [⟨"😀", b⟩, ⟨"\uE000", a⟩] := by decide +kernel
  have given := (names ["", "😀", "\uE000"]).mpr ⟨increasing, by decide⟩
  have again := rebuilt Unit suite' (by decide)
  refine ⟨by decide, (parting [] [] [] '😀' '\uE000' (by decide)).mpr (by decide), given.symm,
    again.trans given.symm, ?_, listed, ?_⟩
  · exact ((selected _ _).mpr ⟨sorted, by decide⟩).symm
  · rw [listed] at agree
    exact agree _ (by decide)

end CaseGen
