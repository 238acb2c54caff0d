import CaseGen.Proofs.ConstantTime.Comparison
import CaseGen.Proofs.TestCase.Blocks
import CaseGen.Proofs.Text.Decimal
import CaseGen.Proofs.Text.Hex
import Mathlib.Algebra.Ring.Int.Defs

/-! # Reading the cases of the suite back

    Each case of the suite can be written, and its last line says which
    function is called with which arguments.  The arguments hold all that
    the case was made of: buffers in quoted hexadecimal digits and numbers
    in decimal ones.  So a case is read back from its last line, and no two
    cases of a class have the same one.

    * `Instance.lastLine?`     — the last line of an instance
    * `exists_lastLine`, `itemsOf_lastLine` — when there is one, and how it is cut
    * `readComparison?`, `readSelection?`, `readSizes?` — what a line was made of
    * `cases_read_back`        — all cases of the suite are read back -/

namespace CaseGen

open Text

/-! ## Section 1: The line of the call -/

theorem Record.itemsOf_callLine {r : Record} (name : SingleItem r.function)
    (arguments : ∀ s ∈ r.arguments, SingleItem s) (some : r.arguments ≠ []) :
    itemsOf ':' r.callLine = r.function :: r.arguments := by
  have joined : r.callLine = (String.singleton ':').intercalate (r.function :: r.arguments) := by
    rw [String.intercalate_cons_of_ne_nil some]
    rfl
  rw [joined]
  refine itemsOf_intercalate ?_ (List.cons_ne_nil _ _)
  intro s mem
  rcases List.mem_cons.mp mem with rfl | mem
  · exact name.no_colon
  · exact (arguments s mem).no_colon

namespace Instance

variable {i : Instance} {name line : String}

/-- The last line of an instance, if it can be written. -/
def lastLine? (i : Instance) : Option String := i.draft.lines.toOption.bind List.getLast?

theorem lastLine?_of_check {r : Record} (checked : i.draft.check = .ok r) :
    i.lastLine? = some r.callLine := by
  have lines : i.draft.lines = .ok r.lines := Draft.lines_eq_ok_iff.mpr ⟨r, checked, rfl⟩
  rw [lastLine?, lines]
  simp [Except.toOption, Record.lines, Record.bodyLines, List.getLast?_append, List.getLast?_cons]

/-- The last line is cut at the colons into the function and the arguments. -/
theorem itemsOf_lastLine (last : i.lastLine? = some line) (function : i.target.function? = some name)
    (arguments : ∀ s ∈ i.spec.arguments, SingleItem s) (some : i.spec.arguments ≠ []) :
    itemsOf ':' line = name :: i.spec.arguments := by
  cases checked : i.draft.check with
  | error f =>
    rw [lastLine?, Draft.lines_eq_error_iff.mpr checked] at last
    cases last
  | ok r =>
    rw [lastLine?_of_check checked] at last
    obtain ⟨same, complete⟩ := Draft.check_eq_ok_iff.mp checked
    have hasName : i.target.function? = .some r.function := congrArg Draft.function same
    have hasArguments : i.spec.arguments = r.arguments := congrArg Draft.arguments same
    rw [hasArguments] at arguments some ⊢
    rw [function] at hasName
    cases hasName
    cases last
    exact Record.itemsOf_callLine complete.function_name.singleItem arguments some

/-- An instance whose texts are fit to be written has a last line. -/
theorem exists_lastLine (function : i.target.function? = some name) (identifier : Identifier name)
    (title : SingleLine i.target.shownTitle) (detail : SingleLine i.spec.detail)
    (arguments : ∀ s ∈ i.spec.arguments, SingleItem s)
    (dependencies : ∀ s ∈ i.spec.dependencies, s ≠ "" ∧ SingleItem s) :
    ∃ line, i.lastLine? = some line := by
  let r : Record :=
    { description := i.description, function := name, arguments := i.spec.arguments,
      dependencies := i.spec.dependencies, comments := [] }
  have same : i.draft = r.toDraft := by
    rw [Instance.draft, function]
    rfl
  have complete : r.Complete := {
    description_ne_empty := i.description_ne_empty
    description_line := singleLine_description_iff.mpr ⟨title, detail⟩
    function_name := identifier
    argument_line := fun s mem => (arguments s mem).singleLine
    dependency_ne_empty := fun s mem => (dependencies s mem).1
    dependency_item := fun s mem => (dependencies s mem).2
    comment_line := fun s mem => absurd mem List.not_mem_nil }
  exact ⟨_, lastLine?_of_check (Draft.check_eq_ok_iff.mpr ⟨same, complete⟩)⟩

end Instance

namespace ConstantTime

/-! ## Section 2: The cases of the suite -/

/-- The instance that selects between two numbers. -/
def selectionOf (r : Registry) (condition ifTrue ifFalse : Int) : Instance :=
  (r.construct selections (selection condition ifTrue ifFalse)).1

/-- The instance that compares two sizes. -/
def sizeMaskOf (r : Registry) (x y : Int) (w : WordSize) : Instance :=
  (r.construct sizeMasks (sizeMask x y w)).1

/-- The buffers that a line compares. -/
def readComparison? (line : String) : Option (List UInt8 × List UInt8) :=
  match itemsOf ':' line with
  | ["ct_memcmp", a, b, _] =>
    match readQuotedHex? a, readQuotedHex? b with
    | some a, some b => some (a, b)
    | _, _ => none
  | _ => none

/-- The condition of a line and the numbers that it selects between. -/
def readSelection? (line : String) : Option (Int × Int × Int) :=
  match itemsOf ':' line with
  | ["ct_uint_if", condition, ifTrue, ifFalse, _] =>
    match condition.toInt?, ifTrue.toInt?, ifFalse.toInt? with
    | some condition, some ifTrue, some ifFalse => some (condition, ifTrue, ifFalse)
    | _, _, _ => none
  | _ => none

/-- The sizes that a line compares. -/
def readSizes? (line : String) : Option (Int × Int) :=
  match itemsOf ':' line with
  | ["ct_size_mask_ge", x, y, _] =>
    match x.toInt?, y.toInt? with
    | some x, some y => some (x, y)
    | _, _ => none
  | _ => none

variable {r : Registry} {a b : List UInt8} {condition ifTrue ifFalse x y : Int} {w : WordSize}
  {line : String}

theorem singleItem_comparison : ∀ s ∈ (comparisonOf r a b).spec.arguments, SingleItem s := by
  have result : ∀ equal : Bool, SingleItem (if equal then "0" else "1") := by decide
  show ∀ s ∈ [quotedHex a, quotedHex b, _], SingleItem s
  simp only [List.forall_mem_cons]
  exact ⟨singleItem_quotedHex a, singleItem_quotedHex b, result _, nofun⟩

theorem singleItem_selection :
    ∀ s ∈ (selectionOf r condition ifTrue ifFalse).spec.arguments, SingleItem s := by
  show ∀ s ∈ [condition, ifTrue, ifFalse, _].map toString, SingleItem s
  rw [List.forall_mem_map]
  exact fun n _ => singleItem_toString n

theorem singleItem_sizeMask : ∀ s ∈ (sizeMaskOf r x y w).spec.arguments, SingleItem s := by
  show ∀ s ∈ [x, y, _].map toString, SingleItem s
  rw [List.forall_mem_map]
  exact fun n _ => singleItem_toString n

theorem itemsOf_comparison (last : (comparisonOf r a b).lastLine? = some line) :
    itemsOf ':' line = "ct_memcmp" :: (comparisonOf r a b).spec.arguments :=
  Instance.itemsOf_lastLine last rfl singleItem_comparison (List.cons_ne_nil _ _)

theorem itemsOf_selection (last : (selectionOf r condition ifTrue ifFalse).lastLine? = some line) :
    itemsOf ':' line = "ct_uint_if" :: (selectionOf r condition ifTrue ifFalse).spec.arguments :=
  Instance.itemsOf_lastLine last rfl singleItem_selection (List.cons_ne_nil _ _)

theorem itemsOf_sizeMask (last : (sizeMaskOf r x y w).lastLine? = some line) :
    itemsOf ':' line = "ct_size_mask_ge" :: (sizeMaskOf r x y w).spec.arguments :=
  Instance.itemsOf_lastLine last rfl singleItem_sizeMask (List.cons_ne_nil _ _)

/-- A comparison is read back from its last line. -/
theorem readComparison?_of_lastLine (last : (comparisonOf r a b).lastLine? = some line) :
    readComparison? line = some (a, b) := by
  have items : itemsOf ':' line = ["ct_memcmp", quotedHex a, quotedHex b, _] :=
    itemsOf_comparison last
  rw [readComparison?, items]
  simp only [readQuotedHex?_eq_some_iff.mpr rfl]

/-- A selection is read back from its last line. -/
theorem readSelection?_of_lastLine
    (last : (selectionOf r condition ifTrue ifFalse).lastLine? = some line) :
    readSelection? line = some (condition, ifTrue, ifFalse) := by
  have items : itemsOf ':' line =
      ["ct_uint_if", toString condition, toString ifTrue, toString ifFalse, _] :=
    itemsOf_selection last
  rw [readSelection?, items]
  simp only [toInt?_toString]

/-- The sizes of a size mask are read back from its last line. -/
theorem readSizes?_of_lastLine (last : (sizeMaskOf r x y w).lastLine? = some line) :
    readSizes? line = some (x, y) := by
  have items : itemsOf ':' line = ["ct_size_mask_ge", toString x, toString y, _] :=
    itemsOf_sizeMask last
  rw [readSizes?, items]
  simp only [toInt?_toString]

theorem exists_comparison_line (r : Registry) (a b : List UInt8) :
    ∃ line, (comparisonOf r a b).lastLine? = some line := by
  have title : SingleLine comparisons.shownTitle := by decide +kernel
  have detail : SingleLine (comparisonOf r a b).spec.detail := by
    show SingleLine (toString a.length ++ _)
    refine singleLine_append.mpr ⟨singleLine_toString _, ?_⟩
    cases firstDifference a b with
    | none => decide
    | some k => exact singleLine_append.mpr ⟨by decide, singleLine_toString k⟩
  exact Instance.exists_lastLine rfl (by decide) title detail singleItem_comparison nofun

theorem exists_selection_line (r : Registry) (condition ifTrue ifFalse : Int) :
    ∃ line, (selectionOf r condition ifTrue ifFalse).lastLine? = some line := by
  have title : SingleLine selections.shownTitle := by decide +kernel
  have detail : SingleLine (selectionOf r condition ifTrue ifFalse).spec.detail :=
    singleLine_append.mpr ⟨by decide, (singleItem_toString condition).singleLine⟩
  exact Instance.exists_lastLine rfl (by decide) title detail singleItem_selection nofun

theorem exists_sizeMask_line (r : Registry) (x y : Int) (filled : w.dependency ≠ "")
    (item : SingleItem w.dependency) : ∃ line, (sizeMaskOf r x y w).lastLine? = some line := by
  have title : SingleLine sizeMasks.shownTitle := by decide +kernel
  have detail : SingleLine (sizeMaskOf r x y w).spec.detail := by
    show SingleLine (toString w.bits ++ "-bit " ++ toString x ++ " >= " ++ toString y)
    simp only [singleLine_append]
    exact ⟨⟨⟨⟨singleLine_toString _, by decide⟩, (singleItem_toString x).singleLine⟩, by decide⟩,
      (singleItem_toString y).singleLine⟩
  have dependencies : ∀ s ∈ (sizeMaskOf r x y w).spec.dependencies, s ≠ "" ∧ SingleItem s := by
    show ∀ s ∈ [w.dependency], _
    simpa using ⟨filled, item⟩
  exact Instance.exists_lastLine rfl (by decide) title detail singleItem_sizeMask dependencies

/-! ## Section 3: Reading back -/

/-- Two cases with the same last line are read back as the same. -/
theorem eq_of_read {α : Type} {read : String → Option α} {u v : α} (h : read line = some u)
    (h' : read line = some v) : v = u := Option.some.inj (h'.symm.trans h)

/-- Every comparison, every selection, and every size mask whose dependency is fit to be written has
    a last line, which is cut at the colons into the function and the arguments.  What the case was
    made of is read back from it, so no other case of its class has the same line. -/
theorem cases_read_back (r r' : Registry) :
    (∀ s bytes, readQuotedHex? s = some bytes ↔ s = quotedHex bytes) ∧
    (∀ a b, ∃ line, (comparisonOf r a b).lastLine? = some line ∧
      itemsOf ':' line = "ct_memcmp" :: (comparisonOf r a b).spec.arguments ∧
      readComparison? line = some (a, b) ∧
      ∀ a' b', (comparisonOf r' a' b').lastLine? = some line → (a', b') = (a, b)) ∧
    (∀ condition ifTrue ifFalse, ∃ line,
      (selectionOf r condition ifTrue ifFalse).lastLine? = some line ∧
      itemsOf ':' line = "ct_uint_if" :: (selectionOf r condition ifTrue ifFalse).spec.arguments ∧
      readSelection? line = some (condition, ifTrue, ifFalse) ∧
      ∀ condition' ifTrue' ifFalse',
        (selectionOf r' condition' ifTrue' ifFalse').lastLine? = some line →
        (condition', ifTrue', ifFalse') = (condition, ifTrue, ifFalse)) ∧
    ∀ x y w, w.dependency ≠ "" → SingleItem w.dependency → ∃ line,
      (sizeMaskOf r x y w).lastLine? = some line ∧
      itemsOf ':' line = "ct_size_mask_ge" :: (sizeMaskOf r x y w).spec.arguments ∧
      readSizes? line = some (x, y) ∧
      ∀ x' y' w', (sizeMaskOf r' x' y' w').lastLine? = some line → (x', y') = (x, y) := by
  refine ⟨fun s bytes => readQuotedHex?_eq_some_iff, ?_, ?_, ?_⟩
  · intro a b
    obtain ⟨line, last⟩ := exists_comparison_line r a b
    have read := readComparison?_of_lastLine last
    refine ⟨line, last, itemsOf_comparison last, read, ?_⟩
    intro a' b' last'
    exact eq_of_read read (readComparison?_of_lastLine last')
  · intro condition ifTrue ifFalse
    obtain ⟨line, last⟩ := exists_selection_line r condition ifTrue ifFalse
    have read := readSelection?_of_lastLine last
    refine ⟨line, last, itemsOf_selection last, read, ?_⟩
    intro condition' ifTrue' ifFalse' last'
    exact eq_of_read read (readSelection?_of_lastLine last')
  · intro x y w filled item
    obtain ⟨line, last⟩ := exists_sizeMask_line r x y filled item
    have read := readSizes?_of_lastLine last
    refine ⟨line, last, itemsOf_sizeMask last, read, ?_⟩
    intro x' y' w' last'
    exact eq_of_read read (readSizes?_of_lastLine last')

/-- A negative size, a huge one and an empty buffer. -/
theorem cases_read_back_extremes :
    let w : WordSize := ⟨64, "HAVE_INT64"⟩
    w.dependency ≠ "" ∧ SingleItem w.dependency ∧
      (∃ line, (sizeMaskOf registry (-1) (10 ^ 30) w).lastLine? = some line ∧
        itemsOf ':' line = ["ct_size_mask_ge", "-1", "1000000000000000000000000000000", "0"] ∧
        readSizes? line = some (-1, 10 ^ 30)) ∧
      ∃ line, (comparisonOf registry [] [0, 255]).lastLine? = some line ∧
        itemsOf ':' line = ["ct_memcmp", "\"\"", "\"00ff\"", "0"] ∧
        readComparison? line = some ([], [0, 255]) := by
  intro w
  have filled : w.dependency ≠ "" := by decide
  have item : SingleItem w.dependency := by decide
  obtain ⟨-, comparisons, -, masks⟩ := cases_read_back registry registry
  obtain ⟨line, last, items, read, -⟩ := masks (-1) (10 ^ 30) w filled item
  obtain ⟨line', last', items', read', -⟩ := comparisons [] [0, 255]
  refine ⟨filled, item, ⟨line, last, items.trans ?_, read⟩, line', last', items'.trans ?_, read'⟩
  · decide +kernel
  · decide +kernel

end ConstantTime

end CaseGen
