import CaseGen.Proofs.Files.Place
import Mathlib.Data.List.Induction

/-! # Growing trees and sound trees

    Writing adds to a tree: a directory stays a directory and a file stays
    a file, though its content may change.  In a sound tree everything
    stands in a directory, and so does the home.

    * `Tree.Grows` — one tree keeps what stands in another one
    * `Tree.Sound` — everything stands in a directory
    * `grows_insert`, `sound_insert` — what one insertion keeps -/

namespace CaseGen.Files

namespace Tree

variable {t t' t'' : Tree} {p q : Path} {n : Node}

/-! ## Section 1: Growth -/

/-- The second tree has all directories of the first one, and a file wherever that has one. -/
structure Grows (t t' : Tree) : Prop where
  home : t'.home = t.home
  directory : ∀ p, t.lookup p = some .directory → t'.lookup p = some .directory
  file : ∀ p c, t.lookup p = some (.file c) → ∃ c', t'.lookup p = some (.file c')

theorem Grows.refl (t : Tree) : t.Grows t where
  home := rfl
  directory _ h := h
  file _ c h := ⟨c, h⟩

theorem Grows.trans (h : t.Grows t') (h' : t'.Grows t'') : t.Grows t'' where
  home := h'.home.trans h.home
  directory p hp := h'.directory p (h.directory p hp)
  file p c hp := by
    obtain ⟨c', hp'⟩ := h.file p c hp
    exact h'.file p c' hp'

/-- A node of the same kind, or any node where nothing stands, takes nothing away. -/
theorem grows_insert (hp : p ≠ [])
    (same : ∀ m, t.lookup p = some m → (m = .directory ↔ n = .directory)) :
    t.Grows (t.insert p n) where
  home := home_insert t p n
  directory q hq := by
    rw [lookup_insert hp]
    split
    · next e =>
      subst e
      rw [(same _ hq).mp rfl]
    · exact hq
  file q c hq := by
    rw [lookup_insert hp]
    split
    · next e =>
      subst e
      cases n with
      | directory => exact absurd ((same _ hq).mpr rfl) (by simp)
      | file c' => exact ⟨c', rfl⟩
    · exact ⟨c, hq⟩

/-! ## Section 2: Soundness -/

/-- The home is a directory, and whatever is there stands in a directory. -/
structure Sound (t : Tree) : Prop where
  home : t.lookup t.home = some .directory
  parent : ∀ p name, t.lookup (p ++ [name]) ≠ none → t.lookup p = some .directory

/-- A tree is sound if every entry of its list stands in a directory. -/
theorem sound_iff : t.Sound ↔
    t.lookup t.home = some .directory ∧ ∀ e ∈ t.entries, t.lookup e.path.dropLast = some .directory := by
  constructor
  · intro h
    refine ⟨h.home, ?_⟩
    intro e he
    rcases List.eq_nil_or_concat e.path with root | ⟨p, name, path⟩
    · simp [root]
    · have there := lookup_path_of_mem he
      rw [path, List.concat_eq_append] at there ⊢
      rw [List.dropLast_concat]
      exact h.parent p name there
  · intro h
    obtain ⟨home, parents⟩ := h
    refine ⟨home, ?_⟩
    intro p name there
    rw [lookup_of_ne_nil (by simp)] at there
    cases found : t.entryAt? (p ++ [name]) with
    | none => simp [found] at there
    | some e =>
      have parent := parents e (List.mem_of_find?_eq_some found)
      rwa [entryAt?_path found, List.dropLast_concat] at parent

instance (t : Tree) : Decidable t.Sound := decidable_of_iff _ sound_iff.symm

/-- Everything above an entry is a directory. -/
theorem Sound.above (h : t.Sound) (there : t.lookup p ≠ none) (above : q <+: p) (ne : q ≠ p) :
    t.lookup q = some .directory := by
  obtain ⟨rest, rfl⟩ := above
  -- from the entry upwards, one name at a time
  induction rest using List.reverseRecOn with
  | nil => simp at ne
  | append_singleton rest name ih =>
    rw [← List.append_assoc] at there
    have parent := h.parent _ _ there
    by_cases e : rest = []
    · simpa [e] using parent
    · exact ih (by simp [parent]) (by simpa using e)

/-- Nothing is below a path where nothing stands. -/
theorem Sound.below_none (h : t.Sound) (absent : t.lookup p = none) (below : p <+: q) :
    t.lookup q = none := by
  by_contra there
  by_cases e : p = q
  · exact there (e ▸ absent)
  · rw [h.above there below e] at absent
    cases absent

theorem sound_insert {name : String} (h : t.Sound) (parent : t.lookup p = some .directory)
    (same : ∀ m, t.lookup (p ++ [name]) = some m → (m = .directory ↔ n = .directory)) :
    (t.insert (p ++ [name]) n).Sound := by
  have grows : t.Grows (t.insert (p ++ [name]) n) := grows_insert (by simp) same
  refine ⟨grows.home ▸ grows.directory _ h.home, fun q other there => grows.directory q ?_⟩
  -- the new entry stands in `p`, and every other one where it stood
  rw [lookup_insert (by simp)] at there
  split at there
  · next e =>
    obtain ⟨rfl, -⟩ := List.append_inj' e rfl
    exact parent
  · exact h.parent q other there

theorem sound_erase {c : Bytes} (h : t.Sound) (file : t.lookup p = some (.file c)) :
    (t.erase p).Sound := by
  have hp : p ≠ [] := by
    rintro rfl
    simp at file
  have keep : ∀ q, t.lookup q = some .directory → (t.erase p).lookup q = some .directory := by
    intro q hq
    rw [lookup_erase hp, if_neg, hq]
    rintro rfl
    simp [file] at hq
  -- what has been taken away was a file, so nothing stood in it
  refine ⟨keep _ h.home, fun q name there => keep q (h.parent q name fun absent => there ?_)⟩
  rw [lookup_erase hp, absent, ite_self]

/-- A step upwards from a directory leads to a directory. -/
theorem Sound.dropLast (h : t.Sound) (inside : t.lookup p = some .directory) :
    t.lookup p.dropLast = some .directory := by
  rcases List.eq_nil_or_concat p with rfl | ⟨above, name, rfl⟩
  · exact inside
  · rw [List.concat_eq_append] at inside ⊢
    rw [List.dropLast_concat]
    exact h.parent above name (by simp [inside])

theorem Sound.startOf (h : t.Sound) (text : String) :
    t.lookup (Files.startOf t text) = some .directory := by
  unfold Files.startOf
  split
  · exact lookup_nil t
  · exact h.home

/-- A walk through directories ends at a directory. -/
theorem Sound.enter (h : t.Sound) {cur : Path} {l : List String}
    (inside : t.lookup cur = some .directory) (entered : Files.enter t cur l = .ok p) :
    t.lookup p = some .directory := by
  induction l generalizing cur with
  | nil =>
    cases entered
    exact inside
  | cons name l ih =>
    rcases name_cases name with rfl | rfl | hn
    · exact ih inside (enter_dot t cur l ▸ entered)
    · exact ih (h.dropLast inside) (enter_up t cur l ▸ entered)
    · obtain ⟨-, there, rest⟩ := (enter_name_eq_ok hn).mp entered
      exact ih there rest

/-- An entry is found in a directory. -/
theorem Sound.locate (h : t.Sound) {text name : String} {slash : Bool}
    (found : Files.locate t text = .ok (.entry p name slash)) : t.lookup p = some .directory :=
  h.enter (h.startOf text) (locate_eq_entry.mp found).2.2.2.1

end Tree

end CaseGen.Files
