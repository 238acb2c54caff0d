import CaseGen.Text.Form

/-! # Texts put together

    A text that is put together from lines is a line, whatever stands
    between them that is no line break.

    * `singleLine_append`, `singleLine_intercalate` — texts side by side, and a joined list
    * `SingleItem.singleLine`, `Identifier.singleItem` — items are lines, and identifiers are items -/

namespace CaseGen.Text

variable {s t : String}

theorem singleLine_append : SingleLine (s ++ t) ↔ SingleLine s ∧ SingleLine t := by
  simp [SingleLine, or_imp, forall_and]

theorem singleLine_intercalate {l : List String} (h : ∀ s ∈ l, SingleLine s) :
    SingleLine (":".intercalate l) := by
  have colon : SingleLine ":" := by decide
  induction l with
  | nil => decide
  | cons s l ih =>
    obtain ⟨first, others⟩ := List.forall_mem_cons.mp h
    cases l with
    | nil => simpa using first
    | cons t l =>
      rw [String.intercalate_cons_cons, singleLine_append, singleLine_append]
      exact ⟨⟨first, colon⟩, ih others⟩

theorem SingleItem.singleLine (h : SingleItem s) : SingleLine s := fun c mem => (h c mem).1

theorem SingleItem.no_colon (h : SingleItem s) : ':' ∉ s.toList := fun mem => (h _ mem).2 rfl

theorem Identifier.singleItem (h : Identifier s) : SingleItem s := by
  obtain ⟨c, -, -, parts⟩ := h
  intro d mem
  have part := parts d mem
  constructor
  · intro breaks
    rcases breaks with rfl | rfl
    · exact absurd part (by decide)
    · exact absurd part (by decide)
  · intro colon
    subst colon
    exact absurd part (by decide)

end CaseGen.Text
