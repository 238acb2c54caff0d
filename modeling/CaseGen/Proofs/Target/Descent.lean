import CaseGen.Proofs.Target.Registry
import CaseGen.Target.Generator

/-! # Walks go down the tree of classes

    A class is registered below its parent, so each class that a walk
    visits is deeper than the class that is walked.  As many levels as
    there are registered classes therefore suffice for any walk, and what
    a registry gives for a class does not depend on the bound on levels.

    * `Registry.room`     — the number of registered classes deeper than a class
    * `Holds.descend`     — induction from the subclasses of a class to the class
    * `Holds.within_eq`   — a recursion over the levels does not depend on their number
    * `Holds.visit_eq`    — what a visit leads to, without levels
    * `Alike.pull`        — a pull depends on the registrations only
    * `PullSteps.pull`    — induction along the steps of a pull -/

namespace CaseGen

theorem TargetClass.depth_of_parent? {c d : TargetClass} (h : d.parent? = some c) :
    d.depth = c.depth + 1 := by
  cases d with
  | base => cases h
  | sub id p definition =>
    cases h
    rfl

namespace Registry

variable {r r' : Registry} {l : List Registration} {c d : TargetClass}

theorem Alike.subclassesOf (h : r.Alike r') : r'.subclassesOf = r.subclassesOf := by
  funext c
  rw [Registry.subclassesOf, h.childrenOf]
  rfl

theorem Alike.levels (h : r.Alike r') : r'.levels = r.levels := by
  rw [Registry.levels, h.registered]
  rfl

/-! ## Section 1: Room below a class -/

/-- The number of registered classes that are deeper than this one. -/
def room (r : Registry) (c : TargetClass) : Nat := r.registered.countP fun d => c.depth < d.depth

theorem room_lt_levels (r : Registry) (c : TargetClass) : r.room c < r.levels :=
  Nat.lt_succ_of_le List.countP_le_length

/-- A subclass has less room below it: it is not deeper than itself. -/
theorem Holds.room_lt (h : r.Holds l) (below : d ∈ r.subclassesOf c) : r.room d < r.room c := by
  obtain ⟨there, parent⟩ := h.mem_subclassesOf.mp below
  have registered : d ∈ r.registered := (h.registered d).mpr there
  have depth : d.depth = c.depth + 1 := TargetClass.depth_of_parent? parent
  obtain ⟨before, after, split⟩ := List.append_of_mem registered
  have le (es : List TargetClass) :
      (es.countP fun e => d.depth < e.depth) ≤ es.countP fun e => c.depth < e.depth := by
    refine List.countP_mono_left fun e _ deeper => ?_
    simp only [decide_eq_true_eq] at deeper ⊢
    omega
  have leBefore := le before
  have leAfter := le after
  have self : ¬ d.depth < d.depth := Nat.lt_irrefl _
  have deeper : c.depth < d.depth := by omega
  simp only [room, split, List.countP_append, List.countP_cons, decide_eq_true_eq, if_pos deeper,
    if_neg self]
  omega

/-- What holds for a class if it holds for its subclasses holds for every class. -/
theorem Holds.descend (h : r.Holds l) {motive : TargetClass → Prop}
    (step : ∀ c, (∀ d ∈ r.subclassesOf c, motive d) → motive c) (c : TargetClass) : motive c := by
  induction room : r.room c using Nat.strongRecOn generalizing c with
  | ind n ih =>
    subst room
    exact step c fun d below => ih (r.room d) (h.room_lt below) d rfl

/-! ## Section 2: Recursion over the levels -/

/-- If each level depends on the subclasses at the next one, the full number of levels gives what
    one step over it gives. -/
theorem Holds.within_eq {α : Type} (h : r.Holds l) (f : Nat → TargetClass → α)
    (step : (TargetClass → α) → TargetClass → α) (unfolds : ∀ n c, f (n + 1) c = step (f n) c)
    (onlyBelow : ∀ g g' c, (∀ d ∈ r.subclassesOf c, g d = g' d) → step g c = step g' c)
    (c : TargetClass) : f r.levels c = step (f r.levels) c := by
  have enough : ∀ c n m, r.room c < n → r.room c < m → f n c = f m c := by
    intro c
    refine h.descend (motive := fun c => ∀ n m, r.room c < n → r.room c < m → f n c = f m c) ?_ c
    intro c ih n m hn hm
    obtain ⟨n, rfl⟩ := Nat.exists_eq_add_one_of_ne_zero (Nat.ne_zero_of_lt hn)
    obtain ⟨m, rfl⟩ := Nat.exists_eq_add_one_of_ne_zero (Nat.ne_zero_of_lt hm)
    rw [unfolds, unfolds]
    refine onlyBelow _ _ c fun d below => ?_
    have less := h.room_lt below
    exact ih d below n m (by omega) (by omega)
  have lt := r.room_lt_levels c
  rw [enough c r.levels (r.levels + 1) lt (by omega), unfolds]

end Registry

/-! ## Section 3: Visits -/

namespace Pull

/-- Goes on to `q`, which takes up the later work, if there is no case before it. -/
def orElse (p q : Pull) (later : Generator) : Pull :=
  match p with
  | .done => q
  | p => p.above later

theorem ofWalk_cons (visit : TargetClass → Pull) (c : TargetClass) (rest : List TargetClass) :
    ofWalk visit (c :: rest) = (visit c).orElse (ofWalk visit rest) [.walk rest] := rfl

theorem ofEmissions_walk (walk : Pull) (owner receiver : TargetClass) (rest : List Emission) :
    ofEmissions walk owner receiver (.walk :: rest) =
      walk.orElse (ofEmissions walk owner receiver rest) [.emit owner receiver rest] := rfl

theorem pull_cons (r : Registry) (f : Frame) (g : Generator) :
    Generator.pull r (f :: g) = (r.resume f).orElse (g.pull r) g := rfl

/-- What a walk leads to depends on its classes only. -/
theorem ofWalk_congr {visit visit' : TargetClass → Pull} {cs : List TargetClass}
    (h : ∀ d ∈ cs, visit d = visit' d) : ofWalk visit cs = ofWalk visit' cs := by
  induction cs with
  | nil => rfl
  | cons d cs ih =>
    rw [ofWalk_cons, ofWalk_cons, h d List.mem_cons_self,
      ih fun e he => h e (List.mem_cons_of_mem d he)]

end Pull

namespace Registry

variable {r r' : Registry} {l : List Registration}

/-- A class that lists cases, itself or through an ancestor, is taken up at its emissions, and any
    other one at the walk of its subclasses. -/
theorem Holds.visit_eq (h : r.Holds l) (c : TargetClass) :
    r.visit c =
      match c.emitter? with
      | some (owner, emissions) => r.resume (.emit owner c emissions)
      | none => r.resume (.walk (r.subclassesOf c)) := by
  refine h.within_eq r.visitWithin
    (fun visit c =>
      match c.emitter? with
      | some (owner, emissions) =>
        Pull.ofEmissions (Pull.ofWalk visit (r.subclassesOf c)) owner c emissions
      | none => Pull.ofWalk visit (r.subclassesOf c)) (fun _ _ => rfl) ?_ c
  intro visit visit' c same
  simp only [Pull.ofWalk_congr same]

/-- The counts have no part in a pull. -/
theorem Alike.visit (h : r.Alike r') : r'.visit = r.visit := by
  have within (n : Nat) : r'.visitWithin n = r.visitWithin n := by
    induction n with
    | zero => rfl
    | succ n ih =>
      funext c
      simp only [visitWithin, ih, h.subclassesOf]
  funext c
  rw [Registry.visit, Registry.visit, h.levels, within]

theorem Alike.resume (h : r.Alike r') : r'.resume = r.resume := by
  funext f
  cases f with
  | visit c => simp only [Registry.resume, h.visit]
  | emit owner receiver rest => simp only [Registry.resume, h.visit, h.subclassesOf]
  | walk rest => simp only [Registry.resume, h.visit]

theorem Alike.pull (h : r.Alike r') (g : Generator) : g.pull r' = g.pull r := by
  induction g with
  | nil => rfl
  | cons f g ih => rw [Pull.pull_cons, Pull.pull_cons, ih, h.resume]

/-! ## Section 4: Induction along a pull -/

/-- What relates work to the pull that it leads to: it relates the ends, and is carried back over each
    step and over work that stands above other work. -/
structure PullSteps (r : Registry) (motive : Generator → Pull → Prop) : Prop where
  done : motive [] .done
  above : ∀ {g later p q}, motive g p → motive later q → motive (g ++ later) (p.orElse q later)
  -- a class is visited
  follow : ∀ {c owner emissions p}, c.emitter? = some (owner, emissions) →
    motive [.emit owner c emissions] p → motive [.visit c] p
  walk : ∀ {c p}, c.emitter? = none → motive [.walk (r.subclassesOf c)] p → motive [.visit c] p
  -- a walk goes on
  next : ∀ {d cs p}, motive [.visit d, .walk cs] p → motive [.walk (d :: cs)] p
  walked : motive [.walk []] .done
  -- a list of emissions is followed
  make : ∀ {owner receiver spec rest},
    motive [.emit owner receiver (.make spec :: rest)] (.make owner spec [.emit owner receiver rest])
  stop : ∀ {owner receiver message rest},
    motive [.emit owner receiver (.stop message :: rest)] (.stop message)
  walkWithin : ∀ {owner receiver rest p},
    motive [.walk (r.subclassesOf receiver), .emit owner receiver rest] p →
      motive [.emit owner receiver (.walk :: rest)] p
  followed : ∀ {owner receiver}, motive [.emit owner receiver []] .done

namespace PullSteps

variable {motive : Generator → Pull → Prop}

theorem ofWalk (steps : r.PullSteps motive) {visit : TargetClass → Pull} {cs : List TargetClass}
    (visits : ∀ d ∈ cs, motive [.visit d] (visit d)) :
    motive [.walk cs] (Pull.ofWalk visit cs) := by
  induction cs with
  | nil => exact steps.walked
  | cons d cs ih =>
    rw [Pull.ofWalk_cons]
    have rest := ih fun e he => visits e (List.mem_cons_of_mem d he)
    exact steps.next (steps.above (visits d List.mem_cons_self) rest)

theorem ofEmissions (steps : r.PullSteps motive) {walk : Pull} {owner receiver : TargetClass}
    (walks : motive [.walk (r.subclassesOf receiver)] walk) (emissions : List Emission) :
    motive [.emit owner receiver emissions] (Pull.ofEmissions walk owner receiver emissions) := by
  induction emissions with
  | nil => exact steps.followed
  | cons e rest ih =>
    cases e with
    | make spec => exact steps.make
    | walk =>
      rw [Pull.ofEmissions_walk]
      exact steps.walkWithin (steps.above walks ih)
    | stop message => exact steps.stop

theorem visit (steps : r.PullSteps motive) (h : r.Holds l) (c : TargetClass) :
    motive [.visit c] (r.visit c) := by
  refine h.descend (motive := fun c => motive [.visit c] (r.visit c)) ?_ c
  intro c ih
  rw [h.visit_eq]
  cases emitter : c.emitter? with
  | some e => exact steps.follow emitter (steps.ofEmissions (steps.ofWalk ih) e.2)
  | none => exact steps.walk emitter (steps.ofWalk ih)

theorem resume (steps : r.PullSteps motive) (h : r.Holds l) (f : Frame) :
    motive [f] (r.resume f) := by
  cases f with
  | visit c => exact steps.visit h c
  | emit owner receiver rest =>
    exact steps.ofEmissions (steps.ofWalk fun d _ => steps.visit h d) rest
  | walk rest => exact steps.ofWalk fun d _ => steps.visit h d

/-- What is carried back over each step relates any work to its pull. -/
theorem pull (steps : r.PullSteps motive) (h : r.Holds l) (g : Generator) :
    motive g (g.pull r) := by
  induction g with
  | nil => exact steps.done
  | cons f g ih =>
    rw [Pull.pull_cons]
    exact steps.above (steps.resume h f) ih

end PullSteps

end Registry

end CaseGen
