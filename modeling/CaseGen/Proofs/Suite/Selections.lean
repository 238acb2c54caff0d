import CaseGen.Proofs.Suite.Written
import CaseGen.Proofs.Target.Description

/-! # Other selections of targets

    A call that succeeds leaves the directories of the tree as they are
    once its own directory is made.  Whether a file can be opened goes by
    the directories alone, and whether a test case is complete does not go
    by its number.  So targets that pass in turn also pass in any other
    turn, some of them only or some of them again.

    * `Tree.SameDirectories` — trees that differ in their files
    * `Readies`              — a tree whose directories are known once one is made
    * `Suite.Runs`           — a target that can be written there
    * `Passes.runs`, `passes_of_runs` — from targets in turn to each of them, and back
    * `Passes.reselect`      — other selections of the same targets -/

namespace CaseGen

open Files

/-! ## Section 1: Directories -/

/-- The trees have the same home and the same directories. -/
structure Files.Tree.SameDirectories (t t' : Tree) : Prop where
  home : t'.home = t.home
  directory : ∀ q, t'.lookup q = some .directory ↔ t.lookup q = some .directory

theorem Files.Tree.SameDirectories.refl (t : Tree) : t.SameDirectories t := ⟨rfl, fun _ => Iff.rfl⟩

theorem Files.Tree.SameDirectories.trans {t t' t'' : Tree} (h : t.SameDirectories t')
    (h' : t'.SameDirectories t'') : t.SameDirectories t'' where
  home := h'.home.trans h.home
  directory q := (h'.directory q).trans (h.directory q)

theorem Files.Tree.SameDirectories.symm {t t' : Tree} (h : t.SameDirectories t') :
    t'.SameDirectories t where
  home := h.home.symm
  directory q := (h.directory q).symm

/-- Whether a file can be opened goes by the directories. -/
theorem Files.Tree.SameDirectories.openFile {t t' u : Tree} {p : Path} {text : String}
    (h : t.SameDirectories t') (opened : openFile t text = .ok (p, u)) :
    ∃ u', Files.openFile t' text = .ok (p, u') := by
  obtain ⟨parent, name, found, short, rfl, free, -⟩ := openFile_ok opened
  have found' := locate_mono h.home (fun q => (h.directory q).mpr) found
  exact ⟨_, openFile_of_locate found' short (mt (h.directory _).mp free)⟩

/-- A directory that has been made is there in every tree with the same directories. -/
theorem Files.Tree.SameDirectories.ensureDirectory {t t' t'' : Tree} {dir : String}
    {created : Option String} (h : t'.SameDirectories t'')
    (made : Files.ensureDirectory t dir = (.ok created, t')) :
    Files.ensureDirectory t'' dir = (.ok none, t'') := by
  have entered := enter_mono (fun q => (h.directory q).mpr) (ensureDirectory_enter made)
  rw [← startOf_congr h.home Iff.rfl] at entered
  exact ensureDirectory_of_enter (textRefusal?_of_ok made) entered

/-- Once the directory of this text is made, the directories of the tree are those of `t₁`. -/
def Readies (t₁ : Tree) (dir : String) (t : Tree) : Prop :=
  ∃ created t', ensureDirectory t dir = (.ok created, t') ∧ t₁.SameDirectories t'

/-- A call that succeeds leaves the directories as they are once its own is made. -/
theorem WriteCall.Opens.sameDirectories_of_done {c : WriteCall} {w v : Workspace} {n count : Nat}
    {created : Option String} {t₁ t₂ : Tree} {tmp : Path} (opens : c.Opens w created t₁ tmp t₂)
    (quiet : ∀ q, c.Spares w q) (done : c.after w n = (.done (.ok count), v)) :
    t₁.SameDirectories v.tree := by
  obtain ⟨m, u, parent, name, content, full, -, -, there, free, rfl⟩ := opens.renamed done
  have tmp_ne : tmp ≠ [] := (openFile_place opens.opened).2
  have target_ne : parent ++ [name] ≠ [] := by simp
  obtain ⟨-, -, -, -, -, tmp_free, -⟩ := openFile_ok opens.opened
  refine ⟨?_, fun q => ?_⟩
  · rw [Tree.home_insert, Tree.home_erase, opens.home_eq full trivial, opens.made_grows.home]
  · rw [Tree.lookup_insert target_ne, Tree.lookup_erase tmp_ne]
    by_cases own : q = tmp
    · rw [if_pos own, own]
      split <;> exact iff_of_false (by simp) tmp_free
    · have kept := opens.spared (quiet q) own full trivial
      split
      · next here =>
        -- the file has come where no directory was
        rw [← here, kept] at free
        exact iff_of_false (by simp) free
      · rw [kept]

/-! ## Section 2: Numbers -/

/-- Whether all drafts are complete does not go by the numbers of their instances. -/
theorem checked_congr {l : List Step} {r : Registry} (r' : Registry)
    (checked : ∀ d ∈ yielded r l, ∃ x, d.check = .ok x) :
    ∀ d ∈ yielded r' l, ∃ x, d.check = .ok x := by
  induction l generalizing r r' with
  | nil => simp [yielded]
  | cons s l ih =>
    cases s with
    | yield d =>
      obtain ⟨first, others⟩ := List.forall_mem_cons.mp checked
      exact List.forall_mem_cons.mpr ⟨first, ih r' others⟩
    | construct c spec =>
      -- the two instances differ in their number
      obtain ⟨first, others⟩ := List.forall_mem_cons.mp checked
      exact List.forall_mem_cons.mpr
        ⟨Instance.check_congr (i := (r.construct c spec).1) rfl rfl first, ih _ others⟩
    | fail f => simp [yielded]
    | touch | peek | note => exact ih r' checked

namespace Suite

variable {α : Type} {s : Suite α} {a : α} {w w' : Workspace} {k : String} {names : List String}
  {counts : List Nat} {n : Nat} {t₁ : Tree} {dir : String}

/-! ## Section 3: One target -/

/-- The target can be written where the directories are those of the tree: its files can be opened,
    its producer does not give up, and all its test cases are complete. -/
structure Runs (s : Suite α) (a : α) (t₁ : Tree) (k : String) : Prop where
  temporary : ∃ r, openFile t₁ (temporaryName (s.fileName k)) = .ok r
  file : ∃ r, openFile t₁ (s.fileName k) = .ok r
  producer : ∃ producer, s.table.lookup k = some producer ∧
    (∀ st ∈ (producer a).steps, ¬ st.WritesFile) ∧ (∀ f, .fail f ∉ (producer a).steps) ∧
    ∀ r, ∀ d ∈ yielded r (producer a).steps, ∃ x, d.check = .ok x

/-- The producers of the suite write no files of their own. -/
def Quiet (s : Suite α) (a : α) : Prop := ∀ k producer, s.table.lookup k = some producer →
  ∀ st ∈ (producer a).steps, ¬ st.WritesFile

theorem Runs.congr {t : Tree} (h : s.Runs a t₁ k) (same : t₁.SameDirectories t) :
    s.Runs a t k where
  temporary := by
    obtain ⟨⟨p, u⟩, opened⟩ := h.temporary
    obtain ⟨u', opened⟩ := same.openFile opened
    exact ⟨_, opened⟩
  file := by
    obtain ⟨⟨p, u⟩, opened⟩ := h.file
    obtain ⟨u', opened⟩ := same.openFile opened
    exact ⟨_, opened⟩
  producer := h.producer

theorem Quiet.leavesAlone (quiet : s.Quiet a) (t : Tree) (q : Path) : s.LeavesAlone a t q := by
  intro k producer has path text mem
  exact absurd trivial (quiet k producer has _ mem)

/-- A call that succeeds shows that the target can be written, and leaves the directories as they
    are once its own is made. -/
theorem runs_of_ok (flat : '/' ∉ k.toList) (quiet : s.Quiet a)
    (ok : s.generate w k a = (.ok n, w')) :
    ∃ created t₁, ensureDirectory w.tree (directoryOf (s.fileName k)) = (.ok created, t₁) ∧
      s.Runs a t₁ k ∧ t₁.SameDirectories w'.tree := by
  obtain ⟨producer, steps, v, has, called, ok⟩ := exists_of_generate_ok ok
  change (s.writeCall k steps).run v = (.ok n, w') at ok
  have tree := Production.call_tree (quiet k producer has) w
  rw [called] at tree
  rw [← show v.tree = w.tree from tree]
  obtain ⟨drafts, quietly, still_going⟩ := Production.call_ok called
  have spares := spares_of_quiet (c := s.writeCall k steps) (quietly (quiet k producer has)) v
  obtain ⟨m, done⟩ := WriteCall.exists_after_done_iff.mpr ok
  obtain ⟨created, t₁, tmp, t₂, opens⟩ := WriteCall.exists_opens done (.inr ⟨n, rfl⟩)
  refine ⟨created, t₁, opens.made, ?_, opens.sameDirectories_of_done spares done⟩
  -- the file can be opened where its temporary file has been
  have free := opens.free_of_done (spares _) done
  rw [show v.tree.place (s.writeCall k steps).filename = t₁.place (s.fileName k) from
    (place_congr opens.made_grows.home _).symm] at free
  obtain ⟨init, cut, -⟩ := pieces_fileName s flat
  obtain ⟨p, t, writable⟩ :=
    openFile_of_temporary cut (data_ne_empty k) (data_isName k) opens.opened free
  obtain ⟨going, records, complete⟩ := opens.complete_of_ok ok
  refine ⟨⟨_, opens.opened⟩, ⟨_, writable⟩, producer, has, quiet k producer has,
    still_going going, fun r => ?_⟩
  have complete' : List.Forall₂ (fun d r => d.check = .ok r)
    (yielded w.registry (producer a).steps) records := drafts ▸ complete
  exact checked_congr r (Draft.checked_of_forall₂ complete')

/-! ## Section 4: Targets in turn -/

/-- All targets that pass can be written. -/
theorem Passes.runs (passes : s.Passes a w names counts w') (quiet : s.Quiet a)
    (flat : ∀ k ∈ names, '/' ∉ k.toList)
    (place : ∀ k ∈ names, directoryOf (s.fileName k) = dir) (ready : Readies t₁ dir w.tree) :
    ∀ k ∈ names, s.Runs a t₁ k := by
  induction passes with
  | nil => simp
  | @cons w v w' k n rest counts first later ih =>
    obtain ⟨flat, flat'⟩ := List.forall_mem_cons.mp flat
    obtain ⟨here, place'⟩ := List.forall_mem_cons.mp place
    obtain ⟨created, t, made, runs, kept⟩ := runs_of_ok flat quiet first
    obtain ⟨created', t', made', same⟩ := ready
    rw [here, made'] at made
    cases made
    exact List.forall_mem_cons.mpr ⟨runs.congr same.symm,
      ih flat' place' ⟨none, _, kept.ensureDirectory made', same.trans kept⟩⟩

/-- Targets that can be written pass in turn. -/
theorem passes_of_runs (quiet : s.Quiet a) (flat : ∀ k ∈ names, '/' ∉ k.toList)
    (place : ∀ k ∈ names, directoryOf (s.fileName k) = dir) (ready : Readies t₁ dir w.tree)
    (runs : ∀ k ∈ names, s.Runs a t₁ k) : ∃ counts w', s.Passes a w names counts w' := by
  induction names generalizing w with
  | nil => exact ⟨[], w, .nil⟩
  | cons k rest ih =>
    obtain ⟨flat, flat'⟩ := List.forall_mem_cons.mp flat
    obtain ⟨here, place'⟩ := List.forall_mem_cons.mp place
    obtain ⟨first, others⟩ := List.forall_mem_cons.mp runs
    obtain ⟨created, t, made, same⟩ := ready
    have runs := first.congr same
    obtain ⟨producer, has, own, going, complete⟩ := runs.producer
    obtain ⟨n, ok⟩ := generate_of_writable has own going (complete _)
      (by rw [here]; exact made) runs.temporary runs.file
    rcases called : s.generate w k a with ⟨r, v⟩
    rw [called] at ok
    change r = .ok n at ok
    subst ok
    obtain ⟨created', t', made', -, kept⟩ := runs_of_ok flat quiet called
    rw [here, made] at made'
    cases made'
    obtain ⟨counts, w', later⟩ :=
      ih flat' place' ⟨none, _, kept.ensureDirectory made, same.trans kept⟩ others
    exact ⟨n :: counts, w', .cons called later⟩

/-- From the same workspace other selections of targets that pass do so as well. -/
theorem Passes.reselect {names' : List String} (passes : s.Passes a w names counts w')
    (quiet : s.Quiet a) (flat : ∀ k ∈ names, '/' ∉ k.toList) (among : names' ⊆ names) :
    ∃ counts' v, s.Passes a w names' counts' v := by
  cases passes with
  | nil =>
    rw [List.subset_nil.mp among]
    exact ⟨[], w, .nil⟩
  | @cons _ v _ k n rest counts first later =>
    obtain ⟨created, t₁, made, -⟩ := runs_of_ok (flat k List.mem_cons_self) quiet first
    have place : ∀ l ∈ k :: rest, directoryOf (s.fileName l) = directoryOf (s.fileName k) :=
      fun l mem => s.directoryOf_fileName (flat l mem) (flat k List.mem_cons_self)
    have ready : Readies t₁ (directoryOf (s.fileName k)) w.tree := ⟨created, t₁, made, .refl t₁⟩
    have runs := (Passes.cons first later).runs quiet flat place ready
    exact passes_of_runs quiet (fun l mem => flat l (among mem)) (fun l mem => place l (among mem))
      ready fun l mem => runs l (among mem)

end Suite

end CaseGen
