import CaseGen.Production
import CaseGen.Proofs.Files.Operations

/-! # What producers do

    A step of a producer can yield a draft and it can write a file.  What
    it writes adds to the tree and stays on the way of its path text.  What
    a producer yields depends on the registry it starts with, and on
    nothing else that it finds.

    * `perform_grows`, `perform_sound` — a step keeps what is there
    * `touch_lookup`                   — what the writing of a file leaves alone
    * `yielded`                        — the drafts that steps yield
    * `Production.call_ok`             — what is left to do once a producer is called -/

namespace CaseGen

open Files

/-- A result that is known to be a value is that value with what is left besides. -/
theorem eq_of_toOption {ε ρ σ : Type} {x : Except ε ρ × σ} {a : ρ} (h : x.1.toOption = some a) :
    x = (.ok a, x.2) := by
  obtain ⟨r, s⟩ := x
  cases r with
  | error e => cases h
  | ok b =>
    cases h
    rfl

/-- The step writes a file. -/
def Step.WritesFile : Step → Prop
  | .touch _ _ => True
  | _ => False

instance (s : Step) : Decidable s.WritesFile := by
  cases s <;> unfold Step.WritesFile <;> infer_instance

namespace Workspace

variable {w w' : Workspace} {s : Step} {rest : List Step}

/-! ## Section 1: The tree -/

/-- A file is written once its directory is there, unless one of the two is refused. -/
theorem touch_cases (w : Workspace) (path text : String) :
    (w.touch path text).2.tree = (ensureDirectory w.tree (directoryOf path)).2 ∨
      ∃ p t, openFile (ensureDirectory w.tree (directoryOf path)).2 path = .ok (p, t) ∧
        (w.touch path text).2.tree = overwrite t p 0 (bytesOf text) := by
  unfold touch writeFile
  rcases ensureDirectory w.tree (directoryOf path) with ⟨e | created, t⟩
  · exact .inl rfl
  · dsimp only
    cases opened : openFile t path with
    | error e => exact .inl rfl
    | ok r => exact .inr ⟨r.1, r.2, rfl, rfl⟩

theorem touch_grows (w : Workspace) (path text : String) :
    w.tree.Grows (w.touch path text).2.tree := by
  have made := ensureDirectory_grows w.tree (directoryOf path)
  rcases touch_cases w path text with eq | ⟨p, t, opened, eq⟩
  · rw [eq]
    exact made
  · rw [eq]
    exact made.trans ((openFile_grows opened).trans (overwrite_grows t p _ _))

theorem touch_sound (sound : w.tree.Sound) (path text : String) :
    (w.touch path text).2.tree.Sound := by
  have made := ensureDirectory_sound sound (directoryOf path)
  rcases touch_cases w path text with eq | ⟨p, t, opened, eq⟩
  · rw [eq]
    exact made
  · rw [eq]
    exact overwrite_sound (openFile_sound opened made) p _ _

/-- The writing of a file changes nothing but what is on the way of its path text. -/
theorem touch_lookup {path text : String} {q : Path}
    (off : q ∉ visited (startOf w.tree path) (segments path)) :
    (w.touch path text).2.tree.lookup q = w.tree.lookup q := by
  have start : startOf w.tree (directoryOf path) = startOf w.tree path :=
    startOf_congr rfl (directoryOf_head? path)
  have made : (ensureDirectory w.tree (directoryOf path)).2.lookup q = w.tree.lookup q := by
    rcases ensureDirectory_lookup w.tree (directoryOf path) q with same | ⟨-, -, way⟩
    · exact same
    · rw [start] at way
      exact absurd (visited_directoryOf _ path way) off
  rcases touch_cases w path text with eq | ⟨p, t, opened, eq⟩
  · rw [eq, made]
  · -- the file itself is the end of that way
    have ne : q ≠ p := by
      rintro rfl
      obtain ⟨parent, name, found, -, rfl, -⟩ := openFile_ok opened
      have home := (ensureDirectory_grows w.tree (directoryOf path)).home
      have way := place_mem_visited found
      rw [startOf_congr home Iff.rfl] at way
      exact off way
    rw [eq, overwrite_lookup ne, openFile_lookup opened, if_neg ne, made]

/-- A step that writes no file leaves the tree as it is. -/
theorem perform_tree (h : ¬ s.WritesFile) : (w.perform s).2.tree = w.tree := by
  cases s with
  | touch path text => exact absurd trivial h
  | _ => rfl

theorem perform_touch (w : Workspace) (path text : String) :
    (w.perform (.touch path text)).2 = (w.touch path text).2 := by
  unfold perform
  dsimp only
  rcases w.touch path text with ⟨_ | _, _⟩ <;> rfl

theorem perform_grows (w : Workspace) (s : Step) : w.tree.Grows (w.perform s).2.tree := by
  cases s with
  | touch path text =>
    rw [perform_touch]
    exact touch_grows w path text
  | _ => exact .refl _

theorem perform_sound (sound : w.tree.Sound) (s : Step) : (w.perform s).2.tree.Sound := by
  cases s with
  | touch path text =>
    rw [perform_touch]
    exact touch_sound sound path text
  | _ => exact sound

end Workspace

/-! ## Section 2: The drafts -/

/-- The drafts that steps yield, from the registry before them on; nothing comes after a step
    that gives up. -/
def yielded (r : Registry) : List Step → List Draft
  | [] => []
  | .yield d :: rest => d :: yielded r rest
  | .construct c spec :: rest => (r.construct c spec).1.draft :: yielded (r.construct c spec).2 rest
  | .fail _ :: _ => []
  | .touch _ _ :: rest | .peek :: rest | .note _ :: rest => yielded r rest

/-- The step makes an instance of a class, which is counted. -/
def Step.Constructs : Step → Prop
  | .construct _ _ => True
  | _ => False

@[simp] theorem yielded_yield (r : Registry) (ds : List Draft) : yielded r (ds.map .yield) = ds := by
  induction ds with
  | nil => rfl
  | cons d ds ih => simp [yielded, ih]

namespace Workspace

variable {w w' : Workspace} {s : Step} {rest : List Step}

/-- Writing a file leaves the registry as it is. -/
theorem touch_registry (w : Workspace) (path text : String) :
    (w.touch path text).2.registry = w.registry := by
  unfold touch
  rcases ensureDirectory w.tree (directoryOf path) with ⟨e | created, t⟩
  · rfl
  · dsimp only
    cases writeFile t path text <;> rfl

/-- A step that is taken yields the next draft, or none. -/
theorem yielded_perform {d : Option Draft} (h : w.perform s = (.ok d, w')) :
    yielded w.registry (s :: rest) = d.toList ++ yielded w'.registry rest := by
  cases s with
  | touch path text =>
    have kept : w'.registry = w.registry := by
      rw [← touch_registry w path text, ← perform_touch, h]
    unfold perform at h
    dsimp only at h
    rcases touched : w.touch path text with ⟨f | ⟨⟩, v⟩
    · simp [touched] at h
    · simp only [touched] at h
      cases h
      rw [kept]
      rfl
  | fail f => cases h
  | _ =>
    cases h
    rfl

/-- A step that writes no file is taken unless it gives up. -/
theorem perform_of_quiet (quiet : ¬ s.WritesFile) (going : ∀ f, s ≠ .fail f) :
    ∃ d w', w.perform s = (.ok d, w') := by
  cases s with
  | touch path text => exact absurd trivial quiet
  | fail f => exact absurd rfl (going f)
  | _ => exact ⟨_, _, rfl⟩

/-! ## Section 3: All steps at once -/

/-- What each step does to a workspace, whatever it is, all of them do, if it adds up. -/
theorem performAll_of_perform {R : Workspace → Workspace → Prop} {l : List Step}
    (refl : ∀ w, R w w) (trans : ∀ u v w, R u v → R v w → R u w)
    (step : ∀ s ∈ l, ∀ w, R w (w.perform s).2) (w : Workspace) : R w (w.performAll l).2 := by
  induction l generalizing w with
  | nil => exact refl w
  | cons s rest ih =>
    have first := step s List.mem_cons_self w
    have later := ih fun t mem => step t (List.mem_cons_of_mem s mem)
    rw [performAll]
    generalize w.perform s = taken at first ⊢
    rcases taken with ⟨f | d, v⟩
    · exact first
    · have others := later v
      dsimp only
      generalize v.performAll rest = all at others ⊢
      rcases all with ⟨f | ds, u⟩
      · exact trans w v u first others
      · exact trans w v u first others

theorem performAll_tree {l : List Step} (quiet : ∀ s ∈ l, ¬ s.WritesFile) (w : Workspace) :
    (w.performAll l).2.tree = w.tree :=
  performAll_of_perform (R := fun w w' => w'.tree = w.tree) (fun _ => rfl)
    (fun _ _ _ first later => later.trans first) (fun s mem _ => perform_tree (quiet s mem)) w

/-- The drafts of a producer that takes all its steps, and none of them gives up. -/
theorem performAll_ok {l : List Step} {ds : List Draft} (h : w.performAll l = (.ok ds, w')) :
    yielded w.registry l = ds ∧ ∀ f, .fail f ∉ l := by
  induction l generalizing w ds with
  | nil =>
    cases h
    exact ⟨rfl, by simp⟩
  | cons s rest ih =>
    simp only [performAll] at h
    rcases taken : w.perform s with ⟨f | d, v⟩
    · simp [taken] at h
    · simp only [taken] at h
      rcases all : v.performAll rest with ⟨f | es, u⟩
      · simp [all] at h
      · simp only [all] at h
        cases h
        obtain ⟨drafts, going⟩ := ih all
        refine ⟨by rw [yielded_perform taken, drafts], ?_⟩
        intro f mem
        rcases List.mem_cons.mp mem with rfl | mem
        · cases taken
        · exact going f mem

theorem performAll_of_quiet {l : List Step} (quiet : ∀ s ∈ l, ¬ s.WritesFile)
    (going : ∀ f, .fail f ∉ l) (w : Workspace) : ∃ ds w', w.performAll l = (.ok ds, w') := by
  induction l generalizing w with
  | nil => exact ⟨[], w, rfl⟩
  | cons s rest ih =>
    obtain ⟨d, v, taken⟩ := perform_of_quiet (w := w) (quiet s (by simp)) (by
      rintro f rfl
      exact going f (by simp))
    obtain ⟨ds, u, all⟩ := ih (fun t ht => quiet t (by simp [ht]))
      (fun f mem => going f (by simp [mem])) v
    exact ⟨d.toList ++ ds, u, by simp [performAll, taken, all]⟩

end Workspace

namespace Production

variable {p : Production} {w w' : Workspace} {steps : List Step}

/-- A producer that writes no file leaves the tree alone when it is called. -/
theorem call_tree (quiet : ∀ s ∈ p.steps, ¬ s.WritesFile) (w : Workspace) :
    (p.call w).2.tree = w.tree := by
  unfold call
  split
  · -- the steps of an eager producer are taken now, those of another one later
    have all := Workspace.performAll_tree quiet w
    rcases taken : w.performAll p.steps with ⟨f | ds, v⟩
    · rw [taken] at all
      exact all
    · rw [taken] at all
      exact all
  · rfl

/-- The steps that are left once a producer is called yield what its own steps yield. -/
theorem call_ok (h : p.call w = (.ok steps, w')) :
    yielded w'.registry steps = yielded w.registry p.steps ∧
      ((∀ s ∈ p.steps, ¬ s.WritesFile) → ∀ s ∈ steps, ¬ s.WritesFile) ∧
      ((∀ f, .fail f ∉ steps) → ∀ f, .fail f ∉ p.steps) := by
  unfold call at h
  split at h
  · rcases taken : w.performAll p.steps with ⟨f | ds, v⟩
    · simp [taken] at h
    · simp only [taken] at h
      cases h
      obtain ⟨drafts, going⟩ := Workspace.performAll_ok taken
      refine ⟨by rw [yielded_yield, drafts], fun _ s hs => ?_, fun _ => going⟩
      obtain ⟨d, -, rfl⟩ := List.mem_map.mp hs
      exact id
  · cases h
    exact ⟨rfl, id, id⟩

/-- A producer that writes no file and does not give up can be called. -/
theorem call_of_quiet (quiet : ∀ s ∈ p.steps, ¬ s.WritesFile) (going : ∀ f, .fail f ∉ p.steps)
    (w : Workspace) : ∃ steps w', p.call w = (.ok steps, w') ∧ ∀ f, .fail f ∉ steps := by
  unfold call
  split
  · obtain ⟨ds, v, taken⟩ := Workspace.performAll_of_quiet quiet going w
    exact ⟨ds.map .yield, v, by simp [taken], by simp⟩
  · exact ⟨p.steps, w, rfl, going⟩

end Production

end CaseGen
