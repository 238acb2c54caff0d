import CaseGen.Proofs.TestCase.Complete
import CaseGen.Proofs.Text.Cut
import CaseGen.Proofs.Text.Form
import Mathlib.Data.List.Forall2

/-! # Blocks of lines

    Empty lines separate the blocks of a data file.  A complete record
    takes one block, or two if it has comments, and no line inside a block
    is empty.  A block of comments ends with a line that starts with `#`
    and a block of a case with one that starts with the name of a function,
    so no sequence of records has the lines of another one.

    * `Draft.SameEntry`              — what the lines of two cases have in common
    * `Record.lines_append_inj`      — the lines of the first record, and the rest
    * `flatMap_lines_inj`            — the lines of a sequence of records -/

namespace CaseGen

open Text

/-! ## Section 1: Same entries -/

/-- Two cases that a reader of their lines takes for the same one.  An argument list of one
    empty text reads like an empty list, and a colon in an argument like two arguments. -/
structure Draft.SameEntry (d e : Draft) : Prop where
  comments : d.comments = e.comments
  description : d.description = e.description
  dependencies : d.dependencies = e.dependencies
  function : d.function = e.function
  joined : ":".intercalate d.arguments = ":".intercalate e.arguments

theorem Draft.SameEntry.arguments {d e : Draft} (h : d.SameEntry e) (hd : d.arguments ≠ [])
    (he : e.arguments ≠ []) (colon : ∀ s ∈ d.arguments ++ e.arguments, ':' ∉ s.toList) :
    d.arguments = e.arguments :=
  intercalate_injective (c := ':') (fun s hs => colon s (List.mem_append_left _ hs))
    (fun s hs => colon s (List.mem_append_right _ hs)) hd he h.joined

namespace Record

/-! ## Section 2: Lines of complete records -/

variable {r s : Record}

theorem singleLine_no_feed {t : String} (h : SingleLine t) : '\n' ∉ t.toList :=
  fun mem => h _ mem (.inl rfl)

theorem Complete.name_no_colon (h : r.Complete) : ':' ∉ r.function.toList :=
  h.function_name.singleItem.no_colon

theorem Complete.dependency_no_colon (h : r.Complete) : ∀ t ∈ r.dependencies, ':' ∉ t.toList :=
  fun t ht => (h.dependency_item t ht).no_colon

theorem Complete.callLine_start (h : r.Complete) : ∃ c ∈ r.callLine.toList.head?, IsNameStart c := by
  obtain ⟨c, hc, start, -⟩ := h.function_name
  refine ⟨c, ?_, start⟩
  simp [callLine, List.head?_append, Option.mem_def.mp hc]

theorem callLine_ne_empty : r.callLine ≠ "" := by
  intro h
  have := congrArg String.toList h
  simp [callLine] at this

theorem Complete.empty_not_mem_bodyLines (h : r.Complete) : "" ∉ r.bodyLines := by
  simp only [bodyLines, dependencyLines, List.mem_cons, List.mem_append, List.not_mem_nil, or_false]
  rintro (e | e | e)
  · exact h.description_ne_empty e.symm
  · split at e
    · cases e
    · have := congrArg String.toList (List.mem_singleton.mp e)
      simp at this
  · exact callLine_ne_empty e.symm

theorem empty_not_mem_comments (l : List String) : "" ∉ l.map ("# " ++ ·) := by
  simp only [List.mem_map, not_exists, not_and]
  intro t _ e
  have := congrArg String.toList e
  simp at this

/-- A block of comments is no block of a case: its last line starts with `#`. -/
theorem Complete.comments_ne_bodyLines (h : r.Complete) (l : List String) :
    l.map ("# " ++ ·) ≠ r.bodyLines := by
  intro e
  -- the line of the call would be a comment
  have mem : r.callLine ∈ l.map ("# " ++ ·) := by
    rw [e]
    simp [bodyLines]
  obtain ⟨t, -, ht⟩ := List.mem_map.mp mem
  obtain ⟨c, hc, start⟩ := h.callLine_start
  rw [← ht] at hc
  have hash : c = '#' := by simpa [eq_comm] using hc
  subst hash
  exact absurd start (by decide)

/-- No line of a complete record is broken. -/
theorem Complete.singleLine_lines (h : r.Complete) : ∀ t ∈ r.lines, SingleLine t := by
  have empty : SingleLine "" := by decide
  have mark : SingleLine "# " := by decide
  have key : SingleLine "depends_on:" := by decide
  have colon : SingleLine ":" := by decide
  have args := singleLine_intercalate h.argument_line
  have deps := singleLine_intercalate fun t ht => (h.dependency_item t ht).singleLine
  intro t ht
  simp only [lines, commentLines, bodyLines, dependencyLines, List.mem_append, List.mem_cons,
    List.not_mem_nil, or_false] at ht
  rcases ht with ht | rfl | rfl | ht | rfl
  · split at ht
    · cases ht
    · rcases List.mem_cons.mp ht with rfl | ht
      · exact empty
      · obtain ⟨u, hu, rfl⟩ := List.mem_map.mp ht
        exact singleLine_append.mpr ⟨mark, h.comment_line u hu⟩
  · exact empty
  · exact h.description_line
  · split at ht
    · cases ht
    · rw [List.mem_singleton.mp ht]
      exact singleLine_append.mpr ⟨key, deps⟩
  · rw [callLine, singleLine_append, singleLine_append]
    exact ⟨⟨h.function_name.singleItem.singleLine, colon⟩, args⟩

/-- No line of a complete record is broken by a line feed. -/
theorem Complete.no_feed (h : r.Complete) : ∀ t ∈ r.lines, '\n' ∉ t.toList :=
  fun t ht => singleLine_no_feed (h.singleLine_lines t ht)

/-! ## Section 3: Telling records apart -/

theorem bodyLines_inj (hr : r.Complete) (hs : s.Complete) (h : r.bodyLines = s.bodyLines) :
    r.description = s.description ∧ r.dependencies = s.dependencies ∧ r.function = s.function ∧
      ":".intercalate r.arguments = ":".intercalate s.arguments := by
  -- the first line and the last one are there in any case, the dependencies stand between them
  obtain ⟨description, rest⟩ := List.cons.inj h
  obtain ⟨deps, call⟩ := List.append_inj' rest rfl
  refine ⟨description, ?_, ?_⟩
  · by_cases er : r.dependencies = [] <;> by_cases es : s.dependencies = [] <;>
      simp only [dependencyLines, er, es, List.isEmpty_iff, if_true, if_false, reduceCtorEq,
        List.cons.injEq, and_true] at deps ⊢
    have joined : (":".intercalate r.dependencies) = ":".intercalate s.dependencies := by
      have := congrArg String.toList deps
      simpa only [String.toList_append, List.append_cancel_left_eq, String.toList_inj] using this
    exact intercalate_injective hr.dependency_no_colon hs.dependency_no_colon er es joined
  · have chars : r.function.toList ++ ':' :: (":".intercalate r.arguments).toList =
        s.function.toList ++ ':' :: (":".intercalate s.arguments).toList := by
      simpa [callLine] using congrArg String.toList (List.cons.inj call).1
    obtain ⟨name, args⟩ := append_inj_of_cut hr.name_no_colon hs.name_no_colon
      (by simp) (by simp) chars
    exact ⟨String.toList_inj.mp name, String.toList_inj.mp (List.cons.inj args).2⟩

theorem lines_of_no_comment (h : r.comments = []) : r.lines = "" :: r.bodyLines := by
  simp [lines, commentLines, h]

theorem lines_of_comment (h : r.comments ≠ []) :
    r.lines = "" :: (r.comments.map ("# " ++ ·) ++ "" :: r.bodyLines) := by
  simp [lines, commentLines, h]

/-- The first block of a record with comments is not the one of a record without any. -/
theorem lines_append_ne (hs : s.Complete) (er : r.comments ≠ []) (es : s.comments = [])
    {x y : List String} (hy : ∀ a ∈ y.head?, a = "") : r.lines ++ x ≠ s.lines ++ y := by
  intro h
  rw [lines_of_comment er, lines_of_no_comment es] at h
  simp only [List.cons_append, List.append_assoc, List.cons.injEq, true_and] at h
  exact hs.comments_ne_bodyLines _ (append_inj_of_cut (empty_not_mem_comments _)
    hs.empty_not_mem_bodyLines (by simp) hy h).1

/-- The lines of a record, followed by an empty line or by nothing, fix its comments and its
    body and what comes after them. -/
theorem lines_append_inj (hr : r.Complete) (hs : s.Complete) {x y : List String}
    (hx : ∀ a ∈ x.head?, a = "") (hy : ∀ a ∈ y.head?, a = "") (h : r.lines ++ x = s.lines ++ y) :
    r.comments = s.comments ∧ r.bodyLines = s.bodyLines ∧ x = y := by
  -- the blocks are cut at the empty lines, which none of them holds
  have body (e : r.bodyLines ++ x = s.bodyLines ++ y) : r.bodyLines = s.bodyLines ∧ x = y :=
    append_inj_of_cut hr.empty_not_mem_bodyLines hs.empty_not_mem_bodyLines hx hy e
  by_cases er : r.comments = [] <;> by_cases es : s.comments = []
  · rw [lines_of_no_comment er, lines_of_no_comment es] at h
    exact ⟨by rw [er, es], body (List.cons.inj h).2⟩
  · exact absurd h.symm (lines_append_ne hr es er hx)
  · exact absurd h (lines_append_ne hs er es hy)
  · rw [lines_of_comment er, lines_of_comment es] at h
    simp only [List.cons_append, List.append_assoc, List.cons.injEq, true_and] at h
    obtain ⟨comments, rest⟩ := append_inj_of_cut (empty_not_mem_comments _)
      (empty_not_mem_comments _) (by simp) (by simp) h
    refine ⟨?_, body (List.cons.inj rest).2⟩
    refine (List.map_inj_right fun t u e => ?_).mp comments
    exact String.toList_inj.mp (by simpa using congrArg String.toList e)

theorem lines_head? (r : Record) : r.lines.head? = some "" := by
  by_cases h : r.comments = []
  · rw [lines_of_no_comment h]; rfl
  · rw [lines_of_comment h]; rfl

theorem flatMap_lines_head? (l : List Record) : ∀ a ∈ (l.flatMap lines).head?, a = "" := by
  cases l with
  | nil => simp
  | cons r l => simp [List.head?_append, lines_head?]

/-- **Unique reading.**  Complete records one after the other are told apart by their lines. -/
theorem flatMap_lines_inj {l m : List Record} (hl : ∀ r ∈ l, r.Complete) (hm : ∀ r ∈ m, r.Complete)
    (h : l.flatMap lines = m.flatMap lines) :
    List.Forall₂ (fun r s => r.toDraft.SameEntry s.toDraft) l m := by
  induction l generalizing m with
  | nil =>
    cases m with
    | nil => exact .nil
    | cons s m =>
      have := congrArg List.head? h
      simp [List.head?_append, lines_head?] at this
  | cons r l ih =>
    cases m with
    | nil =>
      have := congrArg List.head? h
      simp [List.head?_append, lines_head?] at this
    | cons s m =>
      have hr := hl r (by simp)
      have hs := hm s (by simp)
      obtain ⟨comments, body, rest⟩ :=
        lines_append_inj hr hs (flatMap_lines_head? l) (flatMap_lines_head? m) h
      obtain ⟨description, deps, name, joined⟩ := bodyLines_inj hr hs body
      refine .cons ⟨comments, congrArg some description, deps, congrArg some name, joined⟩ ?_
      exact ih (fun t ht => hl t (by simp [ht])) (fun t ht => hm t (by simp [ht])) rest

end Record

end CaseGen
