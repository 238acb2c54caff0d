import CaseGen.Files.Tree

/-! # What stands at a path after a change

    Every change of a tree is described by what stands at each path
    afterwards.  The root always stands, so a change is made at a path
    below it.

    * `lookup_insert`, `lookup_erase`, `lookup_eraseUnder` — the three changes
    * `erase_insert`, `eraseUnder_insert`                  — a change that is taken back -/

namespace CaseGen.Files

namespace Tree

variable {t : Tree} {p q : Path} {n : Node}

@[simp] theorem lookup_nil (t : Tree) : t.lookup [] = some .directory := by simp [lookup]

theorem lookup_of_ne_nil (hq : q ≠ []) : t.lookup q = (t.entryAt? q).map Entry.node := by
  simp [lookup, hq]

@[simp] theorem home_insert (t : Tree) (p : Path) (n : Node) : (t.insert p n).home = t.home := by
  simp only [insert]
  split <;> rfl

@[simp] theorem home_erase (t : Tree) (p : Path) : (t.erase p).home = t.home := rfl

@[simp] theorem home_eraseUnder (t : Tree) (p : Path) : (t.eraseUnder p).home = t.home := rfl

/-! ## Section 1: Insertion -/

/-- A new entry in place of an old one at the same path. -/
def replaced (new e : Entry) : Entry := if e.path = new.path then new else e

theorem path_replaced (new e : Entry) : (replaced new e).path = e.path := by
  unfold replaced
  split
  · next h => exact h.symm
  · rfl

theorem entries_insert (t : Tree) (p : Path) (n : Node) :
    (t.insert p n).entries =
      if (t.entryAt? p).isSome then t.entries.map (replaced { path := p, node := n })
      else t.entries ++ [{ path := p, node := n }] := by
  simp only [insert]
  split
  · simp only [Entry.isAt_length]
    rfl
  · rfl

theorem entryAt?_path {t : Tree} {q : Path} {e : Entry} (h : t.entryAt? q = some e) : e.path = q := by
  rw [entryAt?_eq] at h
  simpa using List.find?_some h

theorem entryAt?_insert (t : Tree) (p q : Path) (n : Node) :
    (t.insert p n).entryAt? q = if q = p then some { path := p, node := n } else t.entryAt? q := by
  rw [entryAt?_eq, entries_insert]
  by_cases there : (t.entryAt? p).isSome
  · have found : t.entries.find? ((fun e => decide (e.path = q)) ∘
        replaced { path := p, node := n }) = t.entryAt? q := by
      rw [entryAt?_eq]
      simp only [Function.comp_def, path_replaced]
    rw [if_pos there, List.find?_map, found]
    by_cases hq : q = p
    · obtain ⟨e, he⟩ := Option.isSome_iff_exists.mp there
      simp [hq, he, replaced, entryAt?_path he]
    · cases he : t.entryAt? q with
      | none => simp [hq]
      | some e => simp [hq, replaced, entryAt?_path he]
  · rw [if_neg there, List.find?_append, ← entryAt?_eq]
    rw [Bool.not_eq_true, Option.isSome_eq_false_iff, Option.isNone_iff_eq_none] at there
    by_cases hq : q = p
    · subst hq
      simp [there]
    · simp [hq, Ne.symm hq]

theorem lookup_insert (hp : p ≠ []) (q : Path) :
    (t.insert p n).lookup q = if q = p then some n else t.lookup q := by
  by_cases hq : q = []
  · subst hq
    simp [Ne.symm hp]
  · rw [lookup_of_ne_nil hq, lookup_of_ne_nil hq, entryAt?_insert]
    split <;> rfl

/-! ## Section 2: Removal -/

theorem lookup_erase (hp : p ≠ []) (q : Path) :
    (t.erase p).lookup q = if q = p then none else t.lookup q := by
  by_cases hq : q = []
  · subst hq
    simp [Ne.symm hp]
  · rw [lookup_of_ne_nil hq, lookup_of_ne_nil hq, entryAt?_eq, entryAt?_eq, erase, List.find?_filter]
    by_cases h : q = p
    · subst h
      simp
    · have : ∀ e : Entry, (e.path ≠ p ∧ e.path = q) ↔ e.path = q := by grind
      simp [this, h]

theorem lookup_eraseUnder (hp : p ≠ []) (q : Path) :
    (t.eraseUnder p).lookup q = if p <+: q then none else t.lookup q := by
  by_cases hq : q = []
  · subst hq
    simp [hp]
  · rw [lookup_of_ne_nil hq, lookup_of_ne_nil hq, entryAt?_eq, entryAt?_eq, eraseUnder,
      List.find?_filter]
    by_cases h : p <+: q
    · have : ∀ e : Entry, ¬ (¬ p <+: e.path ∧ e.path = q) := by grind
      simp [this, h]
    · have : ∀ e : Entry, (¬ p <+: e.path ∧ e.path = q) ↔ e.path = q := by grind
      simp [this, h]

theorem lookup_path_of_mem {e : Entry} (h : e ∈ t.entries) : t.lookup e.path ≠ none := by
  by_cases hp : e.path = []
  · simp [hp]
  · rw [lookup_of_ne_nil hp, entryAt?_eq]
    simpa using ⟨e, h, rfl⟩

theorem erase_eq_self (h : t.lookup p = none) : t.erase p = t := by
  have all : ∀ e ∈ t.entries, decide (e.path ≠ p) = true := fun e he =>
    decide_eq_true fun hp => lookup_path_of_mem he (hp ▸ h)
  rw [erase, List.filter_eq_self.mpr all]

theorem eraseUnder_eq_self (h : ∀ q, p <+: q → t.lookup q = none) : t.eraseUnder p = t := by
  have all : ∀ e ∈ t.entries, decide (¬ p <+: e.path) = true := fun e he =>
    decide_eq_true fun hp => lookup_path_of_mem he (h _ hp)
  rw [eraseUnder, List.filter_eq_self.mpr all]

/-! ## Section 3: Changes that are taken back -/

/-- An entry that is filtered out leaves no trace of its insertion. -/
theorem filter_entries_insert (keep : Path → Bool) (h : keep p = false) :
    (t.insert p n).entries.filter (fun e => keep e.path) = t.entries.filter fun e => keep e.path := by
  rw [entries_insert]
  split
  · induction t.entries with
    | nil => rfl
    | cons e l ih =>
      rw [List.map_cons, List.filter_cons, List.filter_cons, path_replaced, ih]
      by_cases he : e.path = p
      · rw [he, h]
        rfl
      · simp [replaced, he]
  · simp [h]

theorem erase_insert (t : Tree) (p : Path) (n : Node) : (t.insert p n).erase p = t.erase p := by
  simp only [erase, home_insert]
  rw [filter_entries_insert (fun q => decide (q ≠ p)) (by simp)]

theorem eraseUnder_insert (h : p <+: q) : (t.insert q n).eraseUnder p = t.eraseUnder p := by
  simp only [eraseUnder, home_insert]
  rw [filter_entries_insert (fun q => decide (¬ p <+: q)) (by simpa using h)]

theorem eraseUnder_erase (t : Tree) (p q : Path) :
    (t.erase p).eraseUnder q = (t.eraseUnder q).erase p := by
  simp [erase, eraseUnder, List.filter_filter, Bool.and_comm]

end Tree

end CaseGen.Files
