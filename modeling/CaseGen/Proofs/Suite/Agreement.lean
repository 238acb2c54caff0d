import CaseGen.Proofs.Suite.Passes
import CaseGen.Proofs.Target.Registry

/-! # Calls that find the same

    A call for a target finds a tree, and counts of the classes that its
    producer makes instances of.  Nothing else of the workspace has a part
    in it: calls that find the same end in the same way and leave the same
    behind.

    * `Step.target?`           — the class that a step makes an instance of
    * `Workspace.AgreeOn`      — the same tree and the same counts of some classes
    * `Agrees`                 — the same result, and workspaces that agree
    * `TargetTable.Makes`      — the classes that a producer makes instances of
    * `writeDataFile_agrees`   — files that are filled alike are written alike
    * `generate_agrees`, `Passes.agrees` — calls for targets, one and in turn -/

namespace CaseGen

open Files

/-- The class that the step makes an instance of, if it makes one. -/
def Step.target? : Step → Option TargetClass
  | .construct c _ => some c
  | _ => none

/-! ## Section 1: Workspaces that agree -/

/-- The workspaces have the same tree and the same counts of these classes. -/
structure Workspace.AgreeOn (C : TargetClass → Prop) (w v : Workspace) : Prop where
  tree : v.tree = w.tree
  count : ∀ c, C c → v.registry.count c = w.registry.count c

/-- Both have the same result and leave workspaces that agree. -/
structure Agrees {ρ : Type} (C : TargetClass → Prop) (a b : ρ × Workspace) : Prop where
  result : b.1 = a.1
  workspace : a.2.AgreeOn C b.2

variable {C : TargetClass → Prop} {w v : Workspace} {s : Step} {l l' : List Step}

theorem Workspace.AgreeOn.refl (C : TargetClass → Prop) (w : Workspace) : w.AgreeOn C w :=
  ⟨rfl, fun _ _ => rfl⟩

theorem Workspace.AgreeOn.withTree (h : w.AgreeOn C v) (t : Tree) :
    ({ w with tree := t } : Workspace).AgreeOn C { v with tree := t } := ⟨rfl, h.count⟩

/-- Both fail with the same failure, or both go on with the same value. -/
theorem Agrees.cases {ε ρ : Type} {a b : Except ε ρ × Workspace} (h : Agrees C a b) :
    (∃ f w v, a = (.error f, w) ∧ b = (.error f, v) ∧ w.AgreeOn C v) ∨
      ∃ x w v, a = (.ok x, w) ∧ b = (.ok x, v) ∧ w.AgreeOn C v := by
  obtain ⟨r, w⟩ := a
  obtain ⟨r', v⟩ := b
  obtain ⟨same, after⟩ := h
  dsimp only at same after
  subst same
  cases r' with
  | error f => exact .inl ⟨f, w, v, rfl, rfl, after⟩
  | ok x => exact .inr ⟨x, w, v, rfl, rfl, after⟩

/-! ## Section 2: Steps -/

namespace Workspace

theorem touch_agrees (h : w.AgreeOn C v) (path text : String) :
    Agrees C (w.touch path text) (v.touch path text) := by
  unfold touch
  rw [h.tree]
  rcases ensureDirectory w.tree (directoryOf path) with ⟨e | created, t⟩
  · exact ⟨rfl, h.withTree t⟩
  · dsimp only
    cases writeFile t path text with
    | error e => exact ⟨rfl, h.withTree t⟩
    | ok t' => exact ⟨rfl, h.withTree t'⟩

/-- A step goes by the tree and by the count of the class that it makes an instance of. -/
theorem perform_agrees (h : w.AgreeOn C v) (covers : ∀ c ∈ s.target?, C c) :
    Agrees C (w.perform s) (v.perform s) := by
  cases s with
  | construct c spec =>
    have own := h.count c (covers c rfl)
    refine ⟨?_, h.tree, ?_⟩
    · simp only [perform, Registry.construct, own]
    · intro d mem
      show (v.registry.bump c).count d = (w.registry.bump c).count d
      rw [Registry.count_bump, Registry.count_bump, h.count d mem]
  | touch path text =>
    obtain ⟨f, w', v', touched, touched', after⟩ | ⟨u, w', v', touched, touched', after⟩ :=
      (touch_agrees h path text).cases
    · simp only [perform, touched, touched']
      exact ⟨rfl, after⟩
    · simp only [perform, touched, touched']
      exact ⟨rfl, after⟩
  | yield | fail | peek | note => exact ⟨rfl, h.tree, h.count⟩

theorem performAll_agrees (h : w.AgreeOn C v) (covers : ∀ s ∈ l, ∀ c ∈ s.target?, C c) :
    Agrees C (w.performAll l) (v.performAll l) := by
  induction l generalizing w v with
  | nil => exact ⟨rfl, h⟩
  | cons s rest ih =>
    obtain ⟨f, w', v', taken, taken', after⟩ | ⟨d, w', v', taken, taken', after⟩ :=
      (perform_agrees h (covers s List.mem_cons_self)).cases
    · simp only [performAll, taken, taken']
      exact ⟨rfl, after⟩
    · obtain ⟨f, w'', v'', all, all', after'⟩ | ⟨ds, w'', v'', all, all', after'⟩ :=
        (ih after fun t mem => covers t (List.mem_cons_of_mem s mem)).cases
      · simp only [performAll, taken, taken', all, all']
        exact ⟨rfl, after'⟩
      · simp only [performAll, taken, taken', all, all']
        exact ⟨rfl, after'⟩

theorem append_agrees (h : w.AgreeOn C v) (sink : Sink) (text : String) :
    Agrees C (w.append sink text) (v.append sink text) := by
  refine ⟨rfl, ?_⟩
  simp only [append, h.tree]
  exact h.withTree _

theorem fill_agrees (h : w.AgreeOn C v) (covers : ∀ s ∈ l, ∀ c ∈ s.target?, C c) (sink : Sink)
    (count : Nat) : Agrees C (w.fill sink count l) (v.fill sink count l) := by
  induction l generalizing w v sink count with
  | nil => exact ⟨rfl, h⟩
  | cons s rest ih =>
    have others := fun t mem => covers t (List.mem_cons_of_mem s mem)
    obtain ⟨f, w', v', taken, taken', after⟩ | ⟨_ | d, w', v', taken, taken', after⟩ :=
      (perform_agrees h (covers s List.mem_cons_self)).cases
    · simp only [fill, taken, taken']
      exact ⟨rfl, after⟩
    · simp only [fill, taken, taken']
      exact ih after others sink count
    · simp only [fill, taken, taken']
      cases d.lines with
      | error f => exact ⟨rfl, after⟩
      | ok lines => exact ih (append_agrees after sink _).workspace others _ _

/-! ## Section 3: Data files -/

theorem rollBack_agrees (h : w.AgreeOn C v) (filename : String) (created : Option String) :
    (w.rollBack filename created).AgreeOn C (v.rollBack filename created) := by
  have tree := h.tree
  cases created <;> exact ⟨by simp only [rollBack, tree], h.count⟩

theorem commit_agrees (h : w.AgreeOn C v) (filename : String) :
    Agrees C (w.commit filename) (v.commit filename) := by
  unfold commit
  rw [h.tree]
  cases rename w.tree (temporaryName filename) filename with
  | error e => exact ⟨rfl, h⟩
  | ok t => exact ⟨rfl, h.withTree t⟩

/-- Calls that find the same tree end alike if their open files are filled alike. -/
theorem writeDataFile_agrees (h : w.AgreeOn C v)
    (filled : ∀ (t : Tree) (sink : Sink), Agrees C (({ w with tree := t } : Workspace).fill sink 0 l)
      (({ v with tree := t } : Workspace).fill sink 0 l')) (filename caller : String) :
    Agrees C (w.writeDataFile filename caller l) (v.writeDataFile filename caller l') := by
  unfold writeDataFile
  rw [h.tree]
  rcases ensureDirectory w.tree (directoryOf filename) with ⟨e | created, t⟩
  · exact ⟨rfl, h.withTree t⟩
  · dsimp only
    rcases openFile t (temporaryName filename) with e | ⟨path, t'⟩
    · exact ⟨rfl, h.withTree t⟩
    · -- the header is the same in both trees, and from there on the files are filled
      let header := bytesOf (headerLine caller ++ "\n")
      have course := filled (overwrite t' path 0 header) { path, offset := 0 + header.length }
      simp only [writeOpened, append]
      obtain ⟨f, w', v', ends, ends', after⟩ | ⟨⟨sink, count⟩, w', v', ends, ends', after⟩ :=
        course.cases
      · simp only [header] at ends ends'
        simp only [ends, ends']
        exact ⟨rfl, rollBack_agrees after filename created⟩
      · simp only [header] at ends ends'
        simp only [ends, ends']
        obtain ⟨f, w'', v'', moved, moved', after'⟩ | ⟨u, w'', v'', moved, moved', after'⟩ :=
          (commit_agrees (append_agrees after sink footerText).workspace filename).cases
        · simp only [append] at moved moved'
          simp only [moved, moved']
          exact ⟨rfl, rollBack_agrees after' filename created⟩
        · simp only [append] at moved moved'
          simp only [moved, moved']
          exact ⟨rfl, after'⟩

end Workspace

/-! ## Section 4: Calls for targets -/

/-- The producer of a target makes instances of the class. -/
def TargetTable.Makes {α : Type} (table : TargetTable α) (a : α) (k : String) (c : TargetClass) :
    Prop :=
  ∃ producer, table.lookup k = some producer ∧ ∃ st ∈ (producer a).steps, c ∈ st.target?

/-- A producer goes by what its steps go by. -/
theorem Production.call_agrees {p : Production} (h : w.AgreeOn C v)
    (covers : ∀ s ∈ p.steps, ∀ c ∈ s.target?, C c) : Agrees C (p.call w) (p.call v) := by
  unfold call
  split
  · obtain ⟨f, w', v', all, all', after⟩ | ⟨ds, w', v', all, all', after⟩ :=
      (Workspace.performAll_agrees h covers).cases
    · simp only [all, all']
      exact ⟨rfl, after⟩
    · simp only [all, all']
      exact ⟨rfl, after⟩
  · exact ⟨rfl, h⟩

/-- A producer that is called makes no instances of classes that its steps make none of. -/
theorem Production.target_mem_of_call {p : Production} {w' : Workspace} {c : TargetClass}
    (called : p.call w = (.ok l, w')) (mem : s ∈ l) (made : c ∈ s.target?) :
    ∃ t ∈ p.steps, c ∈ t.target? := by
  unfold call at called
  split at called
  · rcases all : w.performAll p.steps with ⟨f | ds, u⟩
    · simp [all] at called
    · simp only [all] at called
      cases called
      -- the drafts are handed over, and their instances are made already
      obtain ⟨d, -, rfl⟩ := List.mem_map.mp mem
      cases made
  · cases called
    exact ⟨s, mem, made⟩

namespace Suite

variable {α : Type} {s : Suite α} {a : α} {k : String} {names : List String} {counts : List Nat}
  {w' : Workspace}

/-- A call for a target goes by the tree and by the counts of the classes that its producer makes
    instances of. -/
theorem generate_agrees (h : w.AgreeOn C v) (covers : ∀ c, s.table.Makes a k c → C c) :
    Agrees C (s.generate w k a) (s.generate v k a) := by
  unfold generate
  cases has : s.table.lookup k with
  | none => exact ⟨rfl, h⟩
  | some producer =>
    have covers' (st : Step) (mem : st ∈ (producer a).steps) (c : TargetClass)
        (made : c ∈ st.target?) : C c := covers c ⟨producer, has, st, mem, made⟩
    obtain ⟨f, w', v', called, called', after⟩ | ⟨steps, w', v', called, called', after⟩ :=
      (Production.call_agrees h covers').cases
    · simp only [called, called']
      exact ⟨rfl, after⟩
    · simp only [called, called', write]
      refine Workspace.writeDataFile_agrees after (fun t sink => ?_) _ _
      refine Workspace.fill_agrees (after.withTree t) ?_ sink 0
      intro st mem c made
      obtain ⟨st', mem', made'⟩ := Production.target_mem_of_call called mem made
      exact covers' st' mem' c made'

/-- Targets in turn go by the tree and by the counts of the classes that their producers make
    instances of. -/
theorem Passes.agrees (passes : s.Passes a w names counts w') (h : w.AgreeOn C v)
    (covers : ∀ k ∈ names, ∀ c, s.table.Makes a k c → C c) :
    ∃ v', s.Passes a v names counts v' ∧ w'.AgreeOn C v' := by
  induction passes generalizing v with
  | nil => exact ⟨v, .nil, h⟩
  | @cons w u w' k n rest counts first later ih =>
    have same := generate_agrees h (covers k List.mem_cons_self)
    rw [first] at same
    rcases called : s.generate v k a with ⟨r, u'⟩
    rw [called] at same
    obtain ⟨rfl, after⟩ := same
    obtain ⟨v', others, after'⟩ := ih after fun l mem => covers l (List.mem_cons_of_mem k mem)
    exact ⟨v', .cons called others, after'⟩

end Suite

end CaseGen
