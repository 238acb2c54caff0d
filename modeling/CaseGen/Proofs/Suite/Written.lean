import CaseGen.Proofs.Suite.Call
import CaseGen.Proofs.Suite.Passes

/-! # What targets in turn have written

    Whatever files the producers write by themselves, a call that succeeds
    puts a file in the place of its target, and apart from the producers'
    own files nothing else becomes a file.  Targets in turn therefore leave
    the files of exactly these targets.

    * `Production.LeavesAlone` — the producer writes no file at a path
    * `Suite.Puts`             — how a call that succeeds changes the tree
    * `puts_of_ok`             — it changes the tree in this way
    * `Passes.file`, `Passes.complete`, `Passes.other` — the files after targets in turn -/

namespace CaseGen

open Files

/-! ## Section 1: Calling a producer -/

namespace Production

variable {p : Production} {w w' : Workspace} {t t' : Tree} {q : Path} {steps : List Step}

/-- The path is not on the way of any file that the producer writes. -/
def LeavesAlone (p : Production) (t : Tree) (q : Path) : Prop :=
  ∀ path text, .touch path text ∈ p.steps → q ∉ visited (startOf t path) (segments path)

theorem LeavesAlone.congr (h : p.LeavesAlone t q) (home : t'.home = t.home) :
    p.LeavesAlone t' q := by
  intro path text mem
  rw [startOf_congr home Iff.rfl]
  exact h path text mem

theorem call_grows (p : Production) (w : Workspace) : w.tree.Grows (p.call w).2.tree := by
  unfold call
  split
  · have all := Workspace.performAll_of_perform (R := fun w w' => w.tree.Grows w'.tree)
      (l := p.steps) (fun w => .refl w.tree) (fun _ _ _ first later => first.trans later)
      (fun s _ w => w.perform_grows s) w
    generalize w.performAll p.steps = taken at all ⊢
    rcases taken with ⟨f | ds, v⟩ <;> exact all
  · exact .refl _

/-- What the producer leaves alone is the same after it is called. -/
theorem call_lookup (alone : p.LeavesAlone w.tree q) :
    (p.call w).2.tree.lookup q = w.tree.lookup q := by
  -- the home does not change, so each step finds the path off its way as well
  let R (u u' : Workspace) : Prop := u'.tree.home = u.tree.home ∧
    (u.tree.home = w.tree.home → u'.tree.lookup q = u.tree.lookup q)
  have trans (u u' u'' : Workspace) (first : R u u') (later : R u' u'') : R u u'' := by
    obtain ⟨home, same⟩ := first
    obtain ⟨home', same'⟩ := later
    exact ⟨home'.trans home, fun at_home => (same' (home.trans at_home)).trans (same at_home)⟩
  have step (s : Step) (mem : s ∈ p.steps) (u : Workspace) : R u (u.perform s).2 := by
    refine ⟨(u.perform_grows s).home, fun at_home => ?_⟩
    cases s with
    | touch path text =>
      rw [Workspace.perform_touch]
      exact Workspace.touch_lookup (alone.congr at_home path text mem)
    | _ => rfl
  unfold call
  split
  · have all := Workspace.performAll_of_perform (fun u => ⟨rfl, fun _ => rfl⟩) trans step w
    generalize w.performAll p.steps = taken at all ⊢
    rcases taken with ⟨f | ds, v⟩ <;> exact all.2 rfl
  · rfl

/-- A producer that is called has no more files to write than before. -/
theorem touch_mem_of_call {path text : String} (h : p.call w = (.ok steps, w'))
    (mem : .touch path text ∈ steps) : .touch path text ∈ p.steps := by
  unfold call at h
  split at h
  · rcases taken : w.performAll p.steps with ⟨f | ds, v⟩
    · simp [taken] at h
    · simp only [taken] at h
      cases h
      obtain ⟨d, -, ne⟩ := List.mem_map.mp mem
      cases ne
  · cases h
    exact mem

end Production

/-! ## Section 2: One call -/

/-- After a call that succeeds there is a file in its place, no other file has come, and none has
    gone but the temporary one. -/
theorem WriteCall.Opens.files_of_done {c : WriteCall} {w v : Workspace} {n count : Nat}
    {created : Option String} {t₁ t₂ : Tree} {tmp : Path} (opens : c.Opens w created t₁ tmp t₂)
    (done : c.after w n = (.done (.ok count), v)) :
    v.tree.home = w.tree.home ∧
      (∃ content, v.tree.lookup (w.tree.place c.filename) = some (.file content)) ∧
      (∀ q content, q ≠ w.tree.place c.filename → c.Spares w q →
        v.tree.lookup q = some (.file content) → w.tree.lookup q = some (.file content)) ∧
      ∀ q content, q ≠ tmp → w.tree.lookup q = some (.file content) →
        ∃ content', v.tree.lookup q = some (.file content') := by
  obtain ⟨m, u, parent, name, content, full, -, placed, -, -, rfl⟩ := opens.renamed done
  have tmp_ne : tmp ≠ [] := (openFile_place opens.opened).2
  have target_ne : parent ++ [name] ≠ [] := by simp
  -- up to the rename the tree has grown
  have grown := opens.made_grows.trans
    ((openFile_grows opens.opened).trans (opens.grows full trivial))
  rw [placed]
  refine ⟨?_, ⟨content, ?_⟩, ?_, ?_⟩
  · rw [Tree.home_insert, Tree.home_erase, grown.home]
  · rw [Tree.lookup_insert target_ne, if_pos rfl]
  · intro q content' ne spares there
    rw [Tree.lookup_insert target_ne, if_neg ne, Tree.lookup_erase tmp_ne] at there
    split at there
    · cases there
    · next ne' =>
      -- what was made on the way to the directory is no file
      rw [opens.spared spares ne' full trivial] at there
      rcases opens.keptOrMade q with kept | ⟨-, made, -⟩
      · rw [← kept, there]
      · rw [made] at there
        cases there
  · intro q content' ne there
    rw [Tree.lookup_insert target_ne, Tree.lookup_erase tmp_ne, if_neg ne]
    split
    · exact ⟨content, rfl⟩
    · exact grown.file q content' there

namespace Suite

variable {α : Type} {s : Suite α} {a : α} {w v w' : Workspace} {k : String} {names : List String}
  {counts : List Nat} {n : Nat} {q : Path} {content : Bytes}

/-- No producer of the suite writes a file on whose way the path is. -/
def LeavesAlone (s : Suite α) (a : α) (t : Tree) (q : Path) : Prop :=
  ∀ k producer, s.table.lookup k = some producer → (producer a).LeavesAlone t q

/-- The workspace is like the one before, with a file in the place of the target, whatever files
    the producers write. -/
structure Puts (s : Suite α) (a : α) (w : Workspace) (k : String) (w' : Workspace) : Prop where
  home : w'.tree.home = w.tree.home
  file : ∃ content, w'.tree.lookup (w.tree.place (s.fileName k)) = some (.file content)
  /-- The file is complete, unless a producer has written over it. -/
  complete : s.LeavesAlone a w.tree (w.tree.place (temporaryName (s.fileName k))) →
    ∃ producer records, s.table.lookup k = some producer ∧
      List.Forall₂ (fun d r => d.check = .ok r) (yielded w.registry (producer a).steps) records ∧
      w'.tree.lookup (w.tree.place (s.fileName k)) =
        some (.file (bytesOf (dataFileText s.caller records)))
  /-- No other file has come. -/
  other : ∀ q content, q ≠ w.tree.place (s.fileName k) → s.LeavesAlone a w.tree q →
    w'.tree.lookup q = some (.file content) → w.tree.lookup q = some (.file content)
  /-- No file has gone but the temporary one. -/
  kept : ∀ q content, q ≠ w.tree.place (temporaryName (s.fileName k)) →
    w.tree.lookup q = some (.file content) → ∃ content', w'.tree.lookup q = some (.file content')

/-- A call that succeeds puts the file of its target in its place. -/
theorem puts_of_ok (ok : s.generate w k a = (.ok n, w')) : s.Puts a w k w' := by
  obtain ⟨producer, steps, v, has, called, ok⟩ := exists_of_generate_ok ok
  change (s.writeCall k steps).run v = (.ok n, w') at ok
  have grown := (producer a).call_grows w
  rw [called] at grown
  change w.tree.Grows v.tree at grown
  obtain ⟨m, done⟩ := WriteCall.exists_after_done_iff.mpr ok
  obtain ⟨created, t₁, tmp, t₂, opens⟩ := WriteCall.exists_opens done (.inr ⟨n, rfl⟩)
  have place := fun text => place_congr grown.home text
  have tmp_eq : tmp = w.tree.place (temporaryName (s.fileName k)) := opens.tmp_eq.trans (place _)
  have spares {q : Path} (alone : s.LeavesAlone a w.tree q) : (s.writeCall k steps).Spares v q := by
    refine WriteCall.spares_of_touches fun path text mem => ?_
    have mem' := Production.touch_mem_of_call called mem
    exact (alone k producer has).congr grown.home path text mem'
  obtain ⟨home, file, other, kept⟩ := opens.files_of_done done
  rw [place] at file other
  refine ⟨home.trans grown.home, file, ?_, ?_, ?_⟩
  · intro alone
    obtain ⟨-, records, complete⟩ := opens.complete_of_ok ok
    obtain ⟨-, content, -⟩ := opens.committed complete (spares (tmp_eq ▸ alone)) done
    rw [place] at content
    obtain ⟨drafts, -⟩ := Production.call_ok called
    exact ⟨producer, records, has, drafts ▸ complete, content⟩
  · intro q content ne alone there
    have same := Production.call_lookup (alone k producer has)
    rw [called] at same
    rw [← same]
    exact other q content ne (spares alone) there
  · intro q content ne there
    obtain ⟨content', there'⟩ := grown.file q content there
    exact kept q content' (tmp_eq ▸ ne) there'

/-! ## Section 3: Targets in turn -/

theorem LeavesAlone.congr {t t' : Tree} (h : s.LeavesAlone a t q) (home : t'.home = t.home) :
    s.LeavesAlone a t' q :=
  fun k producer has => (h k producer has).congr home

/-- Only a target of the suite passes. -/
theorem Passes.has (passes : s.Passes a w names counts w') (mem : k ∈ names) : s.Has k := by
  induction passes with
  | nil => cases mem
  | @cons w v w' l n rest counts first _ ih =>
    rcases List.mem_cons.mp mem with rfl | mem
    · obtain ⟨producer, -, -, has, -⟩ := exists_of_generate_ok first
      exact ⟨producer, has⟩
    · exact ih mem

theorem Passes.home (passes : s.Passes a w names counts w') : w'.tree.home = w.tree.home := by
  induction passes with
  | nil => rfl
  | cons first _ ih => exact ih.trans (puts_of_ok first).home

/-- No file goes but the temporary ones. -/
theorem Passes.kept (passes : s.Passes a w names counts w')
    (ne : ∀ l ∈ names, q ≠ w.tree.place (temporaryName (s.fileName l)))
    (there : w.tree.lookup q = some (.file content)) :
    ∃ content', w'.tree.lookup q = some (.file content') := by
  induction passes generalizing content with
  | nil => exact ⟨content, there⟩
  | cons first _ ih =>
    have puts := puts_of_ok first
    obtain ⟨content', there'⟩ := puts.kept q content (ne _ List.mem_cons_self) there
    refine ih (fun l mem => ?_) there'
    rw [place_congr puts.home]
    exact ne l (List.mem_cons_of_mem _ mem)

/-- No files come but those of the targets and those that the producers write. -/
theorem Passes.other (passes : s.Passes a w names counts w') (alone : s.LeavesAlone a w.tree q)
    (ne : ∀ l ∈ names, q ≠ w.tree.place (s.fileName l))
    (there : w'.tree.lookup q = some (.file content)) :
    w.tree.lookup q = some (.file content) := by
  induction passes with
  | nil => exact there
  | cons first _ ih =>
    have puts := puts_of_ok first
    refine puts.other q content (ne _ List.mem_cons_self) alone
      (ih (alone.congr puts.home) (fun l mem => ?_) there)
    rw [place_congr puts.home]
    exact ne l (List.mem_cons_of_mem _ mem)

variable (flat : ∀ k, s.Has k → '/' ∉ k.toList)
include flat

/-- Each target that passes has a file in its place. -/
theorem Passes.file (passes : s.Passes a w names counts w') (mem : k ∈ names) :
    ∃ content, w'.tree.lookup (w.tree.place (s.fileName k)) = some (.file content) := by
  have all := fun l (mem : l ∈ names) => flat l (passes.has mem)
  induction passes with
  | nil => cases mem
  | @cons w v w' l n rest counts first later ih =>
    have puts := puts_of_ok first
    rcases List.mem_cons.mp mem with rfl | mem'
    · -- the later calls keep the file
      obtain ⟨content, there⟩ := puts.file
      refine later.kept (fun l' mem' => ?_) there
      rw [place_congr puts.home]
      exact place_fileName_ne_temporary (all k mem) (all l' (List.mem_cons_of_mem _ mem'))
    · rw [← place_congr puts.home]
      exact ih mem' fun l' mem' => all l' (List.mem_cons_of_mem _ mem')

/-- The file of a target that is not generated again holds what its producer yielded, unless a
    producer has written over it. -/
theorem Passes.complete {before after : List String}
    (passes : s.Passes a w (before ++ k :: after) counts w') (last : k ∉ after)
    (alone : s.LeavesAlone a w.tree (w.tree.place (s.fileName k)))
    (alone' : s.LeavesAlone a w.tree (w.tree.place (temporaryName (s.fileName k)))) :
    ∃ earlier v producer records, s.Passes a w before earlier v ∧
      s.table.lookup k = some producer ∧
      List.Forall₂ (fun d r => d.check = .ok r) (yielded v.registry (producer a).steps) records ∧
      w'.tree.lookup (w.tree.place (s.fileName k)) =
        some (.file (bytesOf (dataFileText s.caller records))) := by
  have all := fun l (mem : l ∈ before ++ k :: after) => flat l (passes.has mem)
  obtain ⟨earlier, v, n, v', others, first, here, later⟩ := passes.split
  have puts := puts_of_ok here
  have home := first.home
  have home' := puts.home.trans home
  obtain ⟨producer, records, has, complete, file⟩ :=
    puts.complete (by rw [place_congr home]; exact alone'.congr home)
  rw [place_congr home] at file
  refine ⟨earlier, v, producer, records, first, has, complete, ?_⟩
  have own := all k (by simp)
  have others (l : String) (mem : l ∈ after) : l ∈ before ++ k :: after := by simp [mem]
  -- the later calls keep the file, and they do not write it
  obtain ⟨content, there⟩ := later.kept (fun l mem => by
    rw [place_congr home']
    exact place_fileName_ne_temporary own (all l (others l mem))) file
  have same := later.other (alone.congr home') (fun l mem => by
    rw [place_congr home']
    intro same
    exact last (place_fileName_inj own (all l (others l mem)) same ▸ mem)) there
  rw [there, ← file, same]

end Suite

end CaseGen
