import CaseGen.TestCase.Lines

/-! # Texts cut at a separator

    A list in front of its first separator is determined by the whole, and
    so are the lines of a text and the items of a joined list, as long as
    none of them holds the separator itself.

    * `append_inj_of_cut`     — the part before the first separator, and the rest
    * `textOfLines_injective` — lines without a line feed
    * `itemsOf_intercalate`   — items without the character between them are read back
    * `intercalate_injective` — so they are determined by the joined text -/

namespace CaseGen

namespace Text

variable {α : Type} [DecidableEq α] {sep : α}

theorem takeWhile_append_of_cut {u x : List α} (hu : sep ∉ u) (hx : ∀ a ∈ x.head?, a = sep) :
    (u ++ x).takeWhile (· ≠ sep) = u := by
  have before : ∀ a ∈ u, decide (a ≠ sep) = true := fun a ha =>
    decide_eq_true fun e => hu (e ▸ ha)
  have after : x.takeWhile (· ≠ sep) = [] := by
    cases x with
    | nil => rfl
    | cons a x => simp [hx a rfl]
  rw [List.takeWhile_append_of_pos before, after, List.append_nil]

/-- Lists without the separator, each followed by it or by nothing, agree once the whole does. -/
theorem append_inj_of_cut {u v x y : List α} (hu : sep ∉ u) (hv : sep ∉ v)
    (hx : ∀ a ∈ x.head?, a = sep) (hy : ∀ a ∈ y.head?, a = sep) (h : u ++ x = v ++ y) :
    u = v ∧ x = y := by
  have same : u = v := by
    rw [← takeWhile_append_of_cut hu hx, h, takeWhile_append_of_cut hv hy]
  subst same
  exact ⟨rfl, List.append_cancel_left h⟩

/-- The items of a text between the places where a character stands. -/
def itemsOf (c : Char) (s : String) : List String := (s.toList.splitOn c).map String.ofList

/-- Items that do not hold the character between them are read back from the joined text. -/
theorem itemsOf_intercalate {c : Char} {l : List String} (h : ∀ s ∈ l, c ∉ s.toList) (h₀ : l ≠ []) :
    itemsOf c ((String.singleton c).intercalate l) = l := by
  have split : ((String.singleton c).intercalate l).toList.splitOn c = l.map String.toList := by
    rw [String.toList_intercalate, String.toList_singleton]
    refine List.splitOn_intercalate _ ?_ (by simpa using h₀)
    simpa using h
  rw [itemsOf, split, List.map_map]
  simp

/-- Items that do not hold the character between them are determined by the joined text. -/
theorem intercalate_injective {c : Char} {l m : List String} (hl : ∀ s ∈ l, c ∉ s.toList)
    (hm : ∀ s ∈ m, c ∉ s.toList) (hl₀ : l ≠ []) (hm₀ : m ≠ [])
    (h : (String.singleton c).intercalate l = (String.singleton c).intercalate m) : l = m := by
  rw [← itemsOf_intercalate hl hl₀, h, itemsOf_intercalate hm hm₀]

end Text

/-! ## Lines -/

@[simp] theorem textOfLines_nil : textOfLines [] = "" := rfl

@[simp] theorem textOfLines_cons (s : String) (l : List String) :
    textOfLines (s :: l) = s ++ "\n" ++ textOfLines l := by
  simp [textOfLines, String.join_cons]

@[simp] theorem textOfLines_append (l m : List String) :
    textOfLines (l ++ m) = textOfLines l ++ textOfLines m := by
  induction l with
  | nil => simp
  | cons s l ih => simp [ih, String.append_assoc]

/-- Lines that hold no line feed are determined by their text. -/
theorem textOfLines_injective {l m : List String} (hl : ∀ s ∈ l, '\n' ∉ s.toList)
    (hm : ∀ s ∈ m, '\n' ∉ s.toList) (h : textOfLines l = textOfLines m) : l = m := by
  induction l generalizing m with
  | nil =>
    cases m with
    | nil => rfl
    | cons t m => simpa using congrArg String.toList h
  | cons s l ih =>
    cases m with
    | nil => simpa using congrArg String.toList h
    | cons t m =>
      have chars : s.toList ++ '\n' :: (textOfLines l).toList =
          t.toList ++ '\n' :: (textOfLines m).toList := by
        simpa using congrArg String.toList h
      obtain ⟨first, rest⟩ := Text.append_inj_of_cut (hl s (by simp)) (hm t (by simp))
        (by simp) (by simp) chars
      have tail : l = m := ih (fun u hu => hl u (by simp [hu])) (fun u hu => hm u (by simp [hu]))
        (String.toList_inj.mp (List.cons.inj rest).2)
      rw [String.toList_inj.mp first, tail]

end CaseGen
