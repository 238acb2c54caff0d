import CaseGen.Proofs.ConstantTime.Reading
import CaseGen.Proofs.Target.Drain
import Mathlib.Algebra.Order.Ring.Int
import Mathlib.Tactic.Positivity

/-! # The size masks of a list of word sizes

    The generator for a list of word sizes makes five instances for each of
    them, in the order of the list, and counts them with all others of the
    class.  So the place of an instance says which word size it is for, and
    with the count at the start it says the number.  Nothing that the
    generator does depends on what is registered.

    * `getElem?_flatMap_of_length` — where an item of blocks of one length stands
    * `WordSize.Holds`             — the numbers that fit a machine word
    * `SizeMaskFor`                — what an instance says about its word size and its sizes
    * `sizeMasks_by_word_size`     — the instances of a list of word sizes -/

namespace CaseGen

open Text

/-! ## Section 1: Blocks of one length -/

section Blocks

variable {α β : Type} {f : α → List β} {n : Nat}

/-- In blocks of one length, the quotient of a place is that of the block and the remainder is the
    place within it. -/
theorem getElem?_flatMap_of_length (pos : 0 < n) (length : ∀ a, (f a).length = n) (l : List α)
    (k : Nat) : (l.flatMap f)[k]? = l[k / n]?.bind fun a => (f a)[k % n]? := by
  induction l generalizing k with
  | nil => rfl
  | cons a l ih =>
    rw [List.flatMap_cons]
    by_cases first : k < n
    · rw [List.getElem?_append_left (by rw [length]; exact first), Nat.div_eq_of_lt first,
        Nat.mod_eq_of_lt first]
      rfl
    · have later : n ≤ k := Nat.le_of_not_lt first
      rw [List.getElem?_append_right (by rw [length]; exact later), length, ih,
        Nat.div_eq_sub_div pos later, Nat.mod_eq_sub_mod later]
      rfl

end Blocks

namespace ConstantTime

variable {r : Registry} {w : WordSize} {x y : Int} {i : Instance}

/-! ## Section 2: Machine words -/

/-- The number fits the machine word. -/
def WordSize.Holds (w : WordSize) (n : Int) : Prop := 0 ≤ n ∧ n ≤ 2 ^ w.bits - 1

theorem WordSize.max_eq (w : WordSize) : w.max = 2 ^ w.bits - 1 := by
  rw [WordSize.max, Nat.one_shiftLeft]
  push_cast
  rfl

/-- The sizes that are compared fit a machine word that has bits. -/
theorem holds_of_mem_sizePairs (sized : 0 < w.bits) (mem : (x, y) ∈ sizePairs w) :
    w.Holds x ∧ w.Holds y := by
  have large : (2 : Int) ≤ 2 ^ w.bits := by
    calc (2 : Int) = 2 ^ 1 := rfl
      _ ≤ 2 ^ w.bits := pow_le_pow_right₀ (by decide) sized
  simp only [sizePairs, w.max_eq, List.mem_cons, Prod.mk.injEq, List.not_mem_nil, or_false] at mem
  unfold WordSize.Holds
  rcases mem with h | h | h | h | h <;> omega

theorem holds_mask (x y : Int) (w : WordSize) : w.Holds (mask x y w) := by
  have positive : (0 : Int) < 2 ^ w.bits := by positivity
  unfold WordSize.Holds mask
  rw [w.max_eq]
  split <;> omega

/-! ## Section 3: Cases that can be written -/

theorem isOk_lines_of_lastLine {line : String} (last : i.lastLine? = some line) :
    i.draft.lines.isOk := by
  unfold Instance.lastLine? at last
  cases lines : i.draft.lines with
  | error f =>
    rw [lines] at last
    cases last
  | ok _ => rfl

/-- A size mask can be written exactly if its dependency is an item of its own. -/
theorem isOk_sizeMaskOf_iff :
    (sizeMaskOf r x y w).draft.lines.isOk ↔ w.dependency ≠ "" ∧ SingleItem w.dependency := by
  constructor
  · intro ok
    obtain ⟨record, checked⟩ := Draft.isOk_lines_iff.mp ok
    obtain ⟨same, complete⟩ := Draft.check_eq_ok_iff.mp checked
    have dependencies : [w.dependency] = record.dependencies := congrArg Draft.dependencies same
    have mem : w.dependency ∈ record.dependencies := dependencies ▸ List.mem_singleton_self _
    exact ⟨complete.dependency_ne_empty _ mem, complete.dependency_item _ mem⟩
  · intro h
    obtain ⟨filled, item⟩ := h
    obtain ⟨line, last⟩ := exists_sizeMask_line r x y filled item
    exact isOk_lines_of_lastLine last

/-! ## Section 4: Lists of word sizes -/

/-- The instance compares two sizes of a machine word: it expects all ones or zero, all its numbers
    fit the word, it depends on the word size and on nothing else, and it can be written exactly if
    that dependency is an item of its own. -/
structure SizeMaskFor (w : WordSize) (x y : Int) (i : Instance) : Prop where
  target : i.target = sizeMasks
  description : i.draft.description = some ("Constant-time size mask (>=)" ++ " #" ++
    toString i.number ++ " " ++ (toString w.bits ++ "-bit " ++ toString x ++ " >= " ++ toString y))
  function : i.draft.function = some "ct_size_mask_ge"
  arguments : i.draft.arguments =
    [toString x, toString y, toString (if x ≥ y then 2 ^ w.bits - 1 else 0 : Int)]
  dependencies : i.draft.dependencies = [w.dependency]
  fits : 0 < w.bits → w.Holds x ∧ w.Holds y ∧ w.Holds (if x ≥ y then 2 ^ w.bits - 1 else 0)
  written : i.draft.lines.isOk ↔ w.dependency ≠ "" ∧ SingleItem w.dependency

theorem sizeMaskFor (number : Nat) (mem : (x, y) ∈ sizePairs w) :
    SizeMaskFor w x y ⟨sizeMasks, number, sizeMask x y w⟩ where
  target := rfl
  description := rfl
  function := rfl
  arguments := by
    rw [← w.max_eq]
    rfl
  dependencies := rfl
  fits sized := by
    obtain ⟨first, second⟩ := holds_of_mem_sizePairs sized mem
    rw [← w.max_eq]
    exact ⟨first, second, holds_mask x y w⟩
  written := by
    rw [← isOk_sizeMaskOf_iff (r := {}) (x := x) (y := y), Instance.isOk_lines_congr]
    · rfl
    · rfl

theorem getElem?_sizeMaskCases (l : List WordSize) (k : Nat) :
    (sizeMaskCases l)[k]? =
      l[k / 5]?.bind fun w => (sizePairs w)[k % 5]?.map fun p => sizeMask p.1 p.2 w := by
  rw [sizeMaskCases, getElem?_flatMap_of_length (n := 5) (by decide) fun _ => rfl]
  simp only [List.getElem?_map]

theorem length_sizeMaskCases (l : List WordSize) : (sizeMaskCases l).length = 5 * l.length := by
  induction l with
  | nil => rfl
  | cons w l ih =>
    have block : (sizeMaskCases (w :: l)).length = 5 + (sizeMaskCases l).length := List.length_append
    rw [block, ih, List.length_cons]
    omega

/-- Pulled to its end, the generator for word sizes makes five instances for each of them, in their
    order, and nothing else happens.  The instances have the numbers after the count of the class,
    and each one is a size mask for the word size at a fifth of its place. -/
theorem sizeMasks_by_word_size (r : Registry) (l : List WordSize) :
    ∃ d : Drained, (∀ d', r.Drains (sizeMaskGenerator l) d' ↔ d' = d) ∧ d.stopped = none ∧
      d.made.length = 5 * l.length ∧ ∀ k i, d.made[k]? = some i →
        i.number = r.count sizeMasks + (k + 1) ∧ ∃ w x y, l[k / 5]? = some w ∧
          (sizePairs w)[k % 5]? = some (x, y) ∧ SizeMaskFor w x y i := by
  have made := r.made_follow_make sizeMasks (sizeMaskCases l)
  refine ⟨r.follow ((sizeMaskCases l).map (.make sizeMasks)), ?_, ?_, ?_, ?_⟩
  · intro d'
    exact Registry.drains_ofEmissions_iff
  · exact r.stopped_follow_make sizeMasks (sizeMaskCases l)
  · rw [made, List.length_mapIdx, length_sizeMaskCases]
  · intro k i here
    rw [made, List.getElem?_mapIdx, Option.map_eq_some_iff] at here
    obtain ⟨spec, here, rfl⟩ := here
    rw [getElem?_sizeMaskCases, Option.bind_eq_some_iff] at here
    obtain ⟨w, word, here⟩ := here
    obtain ⟨⟨x, y⟩, pair, rfl⟩ := Option.map_eq_some_iff.mp here
    exact ⟨rfl, w, x, y, word, pair, sizeMaskFor _ (List.mem_of_getElem? pair)⟩

/-- A word size comes twice, with a dependency that cannot be written, and one instance has been made
    before. -/
theorem sizeMasks_by_word_size_repeated :
    let r := registry.bump sizeMasks
    let bad : WordSize := ⟨64, "HAVE:INT64"⟩
    let good : WordSize := ⟨32, "HAVE_INT32"⟩
    0 < good.bits ∧ ∃ d, r.Drains (sizeMaskGenerator [bad, good, bad]) d ∧ d.made.length = 15 ∧
      (∃ i, d.made[8]? = some i ∧ i.number = 10 ∧
        i.draft.arguments = ["4294967295", "0", "4294967295"] ∧
        i.draft.dependencies = ["HAVE_INT32"] ∧ i.draft.lines.isOk ∧ good.Holds 4294967295) ∧
      ∃ i, d.made[14]? = some i ∧ i.number = 16 ∧
        i.draft.arguments = ["18446744073709551614", "18446744073709551615", "0"] ∧
        ¬ i.draft.lines.isOk := by
  intro r bad good
  have sized : 0 < good.bits := by decide
  have counted : r.count sizeMasks = 1 := by decide
  obtain ⟨d, drains, -, length, made⟩ := sizeMasks_by_word_size r [bad, good, bad]
  have eighth : 8 < d.made.length := by
    rw [length]
    decide
  have last : 14 < d.made.length := by
    rw [length]
    decide
  refine ⟨sized, d, (drains d).mpr rfl, length, ?_, ?_⟩
  · obtain ⟨number, w, x, y, word, pair, mask⟩ := made 8 _ (List.getElem?_eq_getElem eighth)
    obtain rfl : good = w := Option.some.inj word
    obtain ⟨rfl, rfl⟩ : good.max = x ∧ 0 = y := Prod.mk.inj (Option.some.inj pair)
    refine ⟨_, List.getElem?_eq_getElem eighth, ?_, ?_, mask.dependencies, ?_, ?_⟩
    · rw [number, counted]
    · rw [mask.arguments]
      decide
    · exact mask.written.mpr ⟨by decide, by decide⟩
    · exact (mask.fits sized).1
  · obtain ⟨number, w, x, y, word, pair, mask⟩ := made 14 _ (List.getElem?_eq_getElem last)
    obtain rfl : bad = w := Option.some.inj word
    obtain ⟨rfl, rfl⟩ : bad.max - 1 = x ∧ bad.max = y := Prod.mk.inj (Option.some.inj pair)
    refine ⟨_, List.getElem?_eq_getElem last, ?_, ?_, ?_⟩
    · rw [number, counted]
    · rw [mask.arguments]
      decide
    · intro ok
      exact absurd (mask.written.mp ok).2 (by decide)

end ConstantTime

end CaseGen
