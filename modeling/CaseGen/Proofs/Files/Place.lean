import CaseGen.Files.Changes
import CaseGen.Proofs.Files.Pieces
import CaseGen.Proofs.Files.Lookup

/-! # The place of a path text

    There are no links in a tree, so a path text names one place, whatever
    stands there: the names that are passed on the way lead down, and a step
    upwards takes the last of them back.

    * `walk`, `Tree.place`     — the place that names, or a path text, lead to
    * `eq_walk_of_enter`       — a walk through directories ends at its place
    * `locate_eq_entry`        — an entry that is found stands at its place
    * `mem_visited_iff`        — the places that a walk goes through -/

namespace CaseGen.Files

/-! ## Section 1: Walking by name -/

/-- Where a walk through names ends that does not look at the tree. -/
def walk (cur : Path) : List String → Path
  | [] => cur
  | name :: rest =>
    if name = "." then walk cur rest
    else if name = ".." then walk cur.dropLast rest
    else walk (cur ++ [name]) rest

/-- The place that a path text names. -/
def Tree.place (t : Tree) (text : String) : Path := walk (startOf t text) (segments text)

/-- A name of an entry, and no step to the place itself or upwards. -/
def IsName (name : String) : Prop := name ≠ "." ∧ name ≠ ".."

/-- A text with an ending of more than two characters is neither of the two steps. -/
theorem isName_append {s : String} (long : 2 < s.length) (name : String) : IsName (name ++ s) := by
  have longer : 2 < (name ++ s).length := by
    rw [String.length_append]
    omega
  constructor
  · intro dot
    rw [dot] at longer
    exact absurd longer (by decide)
  · intro up
    rw [up] at longer
    exact absurd longer (by decide)

theorem walk_append (cur : Path) (l m : List String) : walk cur (l ++ m) = walk (walk cur l) m := by
  fun_induction walk cur l <;> simp_all [walk]

theorem walk_concat {name : String} (h : IsName name) (cur : Path) (l : List String) :
    walk cur (l ++ [name]) = walk cur l ++ [name] := by
  rw [walk_append]
  simp [walk, h.1, h.2]

/-- Steps to the place itself do not count. -/
theorem walk_filter (cur : Path) (l : List String) : walk cur (l.filter (· ≠ ".")) = walk cur l := by
  fun_induction walk cur l <;> simp_all [walk]

/-- A walk without steps upwards leads to its names below the start. -/
theorem walk_eq_append {l : List String} (h : ".." ∉ l) (cur : Path) :
    walk cur l = cur ++ l.filter (· ≠ ".") := by
  induction l generalizing cur with
  | nil => simp [walk]
  | cons name l ih =>
    simp only [List.mem_cons, not_or] at h
    by_cases dot : name = "."
    · simp [walk, dot, ih h.2]
    · simp [walk, dot, Ne.symm h.1, ih h.2]

/-- The start of a path text depends on its first character and the home alone. -/
theorem startOf_congr {t t' : Tree} {a b : String} (home : t'.home = t.home)
    (head : a.toList.head? = some '/' ↔ b.toList.head? = some '/') : startOf t' a = startOf t b := by
  simp only [startOf, home, head]

theorem place_congr {t t' : Tree} (home : t'.home = t.home) (text : String) :
    t'.place text = t.place text := by
  rw [Tree.place, Tree.place, startOf_congr home Iff.rfl]

/-! ## Section 2: Walking through directories -/

theorem child_eq_ok {t : Tree} {parent : Path} {name : String} {n : Option Node} :
    child t parent name = .ok n ↔
      name.utf8ByteSize ≤ maxNameBytes ∧ t.lookup (parent ++ [name]) = n := by
  unfold child
  split
  · next long => simp [Nat.not_le.mpr long]
  · next short => simp [Nat.not_lt.mp short]

@[simp] theorem enter_nil (t : Tree) (cur : Path) : enter t cur [] = .ok cur := rfl

@[simp] theorem enter_dot (t : Tree) (cur : Path) (rest : List String) :
    enter t cur ("." :: rest) = enter t cur rest := by
  simp [enter]

@[simp] theorem enter_up (t : Tree) (cur : Path) (rest : List String) :
    enter t cur (".." :: rest) = enter t cur.dropLast rest := by
  simp [enter]

theorem enter_name_eq_ok {t : Tree} {cur p : Path} {name : String} {rest : List String}
    (h : IsName name) : enter t cur (name :: rest) = .ok p ↔
      name.utf8ByteSize ≤ maxNameBytes ∧ t.lookup (cur ++ [name]) = some .directory ∧
        enter t (cur ++ [name]) rest = .ok p := by
  simp only [enter, h.1, h.2, if_false]
  cases there : child t cur name with
  | error e =>
    simp only [reduceCtorEq, false_iff, not_and]
    intro short found
    rw [child_eq_ok.mpr ⟨short, found⟩] at there
    cases there
  | ok n =>
    obtain ⟨short, rfl⟩ := child_eq_ok.mp there
    simp only [short, true_and]
    cases t.lookup (cur ++ [name]) with
    | none => simp
    | some n => cases n <;> simp

/-- Cases for the first name of a walk. -/
theorem name_cases (name : String) : name = "." ∨ name = ".." ∨ IsName name := by
  by_cases dot : name = "."
  · exact .inl dot
  · by_cases up : name = ".."
    · exact .inr (.inl up)
    · exact .inr (.inr ⟨dot, up⟩)

/-- A walk through directories ends at its place. -/
theorem eq_walk_of_enter {t : Tree} {cur p : Path} {l : List String} (h : enter t cur l = .ok p) :
    p = walk cur l := by
  induction l generalizing cur with
  | nil => simpa [walk, eq_comm] using h
  | cons name l ih =>
    rcases name_cases name with rfl | rfl | hn
    · simpa [walk] using ih (enter_dot t cur l ▸ h)
    · simpa [walk] using ih (enter_up t cur l ▸ h)
    · simpa [walk, hn.1, hn.2] using ih ((enter_name_eq_ok hn).mp h).2.2

/-- A walk through directories goes through in every tree that has these directories. -/
theorem enter_mono {t t' : Tree}
    (keep : ∀ p, t.lookup p = some .directory → t'.lookup p = some .directory)
    {cur p : Path} {l : List String} (h : enter t cur l = .ok p) : enter t' cur l = .ok p := by
  induction l generalizing cur with
  | nil => exact h
  | cons name l ih =>
    rcases name_cases name with rfl | rfl | hn
    · simpa using ih (enter_dot t cur l ▸ h)
    · simpa using ih (enter_up t cur l ▸ h)
    · obtain ⟨short, there, rest⟩ := (enter_name_eq_ok hn).mp h
      exact (enter_name_eq_ok hn).mpr ⟨short, keep _ there, ih rest⟩

/-! ## Section 3: Finding an entry -/

/-- An entry is found under the last name of a text that may be looked up, in the directory
    that the other names lead to. -/
theorem locate_eq_entry {t : Tree} {text : String} {parent : Path} {name : String} {slash : Bool} :
    locate t text = .ok (.entry parent name slash) ↔
      textRefusal? text = none ∧ (segments text).getLast? = some name ∧ IsName name ∧
        enter t (startOf t text) (segments text).dropLast = .ok parent ∧
          slash = decide (text.toList.getLast? = some '/') := by
  unfold locate
  cases textRefusal? text with
  | some e => simp
  | none =>
    cases (segments text).getLast? with
    | none => simp
    | some last =>
      cases enter t (startOf t text) (segments text).dropLast with
      | error e => simp
      | ok p =>
        -- a text that ends in one of the two steps leads to a directory
        rcases name_cases last with rfl | rfl | h
        · simp only [IsName]
          grind
        · simp only [IsName]
          grind
        · simp only [h.1, h.2, if_false, Except.ok.injEq, Location.entry.injEq, true_and,
            Option.some.injEq]
          constructor
          · rintro ⟨rfl, rfl, rfl⟩
            exact ⟨rfl, h, rfl, rfl⟩
          · rintro ⟨rfl, -, rfl, rfl⟩
            exact ⟨rfl, rfl, rfl⟩

/-- An entry that is found stands at its place. -/
theorem place_of_locate {t : Tree} {text : String} {parent : Path} {name : String} {slash : Bool}
    (h : locate t text = .ok (.entry parent name slash)) : t.place text = parent ++ [name] := by
  obtain ⟨-, last, hn, inside, -⟩ := locate_eq_entry.mp h
  obtain ⟨init, names⟩ := List.getLast?_eq_some_iff.mp last
  rw [names, List.dropLast_concat] at inside
  rw [Tree.place, names, walk_concat hn, ← eq_walk_of_enter inside]

/-- An entry is still found in every tree that has the directories on the way to it. -/
theorem locate_mono {t t' : Tree} (home : t'.home = t.home)
    (keep : ∀ p, t.lookup p = some .directory → t'.lookup p = some .directory)
    {text : String} {parent : Path} {name : String} {slash : Bool}
    (h : locate t text = .ok (.entry parent name slash)) :
    locate t' text = .ok (.entry parent name slash) := by
  obtain ⟨text_ok, last, hn, inside, hslash⟩ := locate_eq_entry.mp h
  refine locate_eq_entry.mpr ⟨text_ok, last, hn, ?_, hslash⟩
  rw [startOf_congr home Iff.rfl]
  exact enter_mono keep inside

/-! ## Section 4: The way of a walk -/

theorem visited_append (cur : Path) (l m : List String) :
    visited cur (l ++ m) = visited cur l ++ visited (walk cur l) m := by
  fun_induction walk cur l <;> simp_all [visited]

/-- Steps to the place itself do not count. -/
theorem visited_filter (cur : Path) (l : List String) :
    visited cur (l.filter (· ≠ ".")) = visited cur l := by
  fun_induction visited cur l <;> simp_all [visited]

/-- A walk without steps upwards goes through the places between its start and its end. -/
theorem mem_visited_iff {l : List String} (h : ".." ∉ l) {cur q : Path} :
    q ∈ visited cur l ↔ cur <+: q ∧ q ≠ cur ∧ q <+: walk cur l := by
  induction l generalizing cur with
  | nil =>
    simp only [visited, walk, List.not_mem_nil, false_iff, not_and]
    intro below ne above
    exact ne (above.eq_of_length_le below.length_le)
  | cons name l ih =>
    obtain ⟨ne, h⟩ := not_or.mp (mt List.mem_cons.mpr h)
    by_cases dot : name = "."
    · simpa [visited, walk, dot] using ih h
    · have hn : name ≠ ".." := Ne.symm ne
      simp only [visited, walk, dot, hn, if_false, List.mem_cons, ih h]
      -- the next place is passed first, and all others are below it
      have next : cur ++ [name] <+: walk (cur ++ [name]) l := by
        rw [walk_eq_append h]
        exact List.prefix_append _ _
      constructor
      · rintro (rfl | ⟨below, -, above⟩)
        · exact ⟨List.prefix_append _ _, by simp, next⟩
        · have longer := below.length_le
          refine ⟨(List.prefix_append _ _).trans below, ?_, above⟩
          rintro rfl
          simp only [List.length_append, List.length_singleton] at longer
          omega
      · rintro ⟨below, ne, above⟩
        by_cases e : q = cur ++ [name]
        · exact .inl e
        · refine .inr ⟨List.prefix_of_prefix_length_le next above ?_, e, above⟩
          have : cur.length ≠ q.length := fun same => ne (below.eq_of_length same).symm
          have := below.length_le
          simp only [List.length_append, List.length_singleton]
          omega

/-- The entry of a path text lies on the way of its walk. -/
theorem place_mem_visited {t : Tree} {text : String} {parent : Path} {name : String} {slash : Bool}
    (h : locate t text = .ok (.entry parent name slash)) :
    parent ++ [name] ∈ visited (startOf t text) (segments text) := by
  obtain ⟨-, last, hn, inside, -⟩ := locate_eq_entry.mp h
  obtain ⟨init, names⟩ := List.getLast?_eq_some_iff.mp last
  rw [names, List.dropLast_concat] at inside
  rw [names, visited_append, ← eq_walk_of_enter inside]
  simp [visited, hn.1, hn.2]

/-- The directory of a path text is on the way of the text. -/
theorem visited_directoryOf (start : Path) (path : String) {q : Path}
    (h : q ∈ visited start (segments (directoryOf path))) : q ∈ visited start (segments path) := by
  rw [← visited_filter, segments_directoryOf, visited_filter] at h
  rcases List.eq_nil_or_concat (segments path) with none | ⟨init, last, names⟩
  · rw [none] at h
    exact absurd h (by simp [visited])
  · rw [names, List.concat_eq_append, List.dropLast_concat] at h
    rw [names, List.concat_eq_append, visited_append]
    exact List.mem_append_left _ h

end CaseGen.Files
