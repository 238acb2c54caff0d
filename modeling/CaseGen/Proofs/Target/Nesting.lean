import CaseGen.Proofs.Target.Observation

/-! # The class of an instance

    A walk visits a class, and what comes of it stands on top of the walk:
    the list of cases that the class gives or takes from an ancestor, and
    the walks within it.  So the instance that a pull makes comes from the
    list of the class that the innermost walk has visited last.

    * `Piece.Nested`  — each piece is about the class visited last by the walk below it
    * `nested_moves`, `nested_afterPull` — it stays so from step to step
    * `made_on_top`   — the instance that a pull makes -/

namespace CaseGen

/-! ## Section 1: Nested work -/

namespace Piece

/-- The class is the one that the walk on top has visited last, or the first of all if there is no
    work. -/
def VisitedLast (first : TargetClass → Prop) (c : TargetClass) : List Piece → Prop
  | [] => first c
  | .walk w _ :: _ => w.visited.getLast? = some c
  | _ => False

/-- Each piece is about the class that the walk below it has visited last.  A list is one that this
    class gives or takes from an ancestor, up to the part that is left, and a walk may also stand on
    the list of its own class. -/
def Nested (first : TargetClass → Prop) : List Piece → Prop
  | [] => True
  | .visit c :: below => VisitedLast first c below ∧ Nested first below
  | .emit owner receiver rest :: below =>
    (∃ followed, receiver.emitter? = some (owner, followed ++ rest)) ∧
      VisitedLast first receiver below ∧ Nested first below
  | .walk w _ :: below =>
    (VisitedLast first w.target below ∨
      ∃ owner rest lower, below = .emit owner w.target rest :: lower) ∧ Nested first below

variable {first first' : TargetClass → Prop} {c : TargetClass} {work : List Piece}

theorem VisitedLast.mono (more : ∀ c, first c → first' c) (h : VisitedLast first c work) :
    VisitedLast first' c work := by
  match work with
  | [] => exact more c h
  | .walk w rest :: below => exact h

theorem Nested.mono (more : ∀ c, first c → first' c) (h : Nested first work) :
    Nested first' work := by
  induction work with
  | nil => trivial
  | cons piece below ih =>
    cases piece with
    | visit c =>
      obtain ⟨last, below⟩ := h
      exact ⟨last.mono more, ih below⟩
    | emit owner receiver rest =>
      obtain ⟨emitter, last, below⟩ := h
      exact ⟨emitter, last.mono more, ih below⟩
    | walk w rest =>
      obtain ⟨last, below⟩ := h
      exact ⟨last.imp_left (·.mono more), ih below⟩

/-- The walk nearest to the top of this work has visited the class last. -/
theorem VisitedLast.innermost (h : VisitedLast first c work) :
    (work.filterMap walk? = [] → first c) ∧
      ∀ w ∈ (work.filterMap walk?).head?, w.visited.getLast? = some c := by
  match work with
  | [] => exact ⟨fun _ => h, by simp⟩
  | .walk w rest :: below =>
    constructor
    · intro none
      cases none
    · intro w' top
      obtain rfl : w = w' := Option.some.inj top
      exact h

end Piece

/-! ## Section 2: Pulls -/

namespace Observed

variable {r : Registry} {l : List Registration} {o o' : Observed} {first : TargetClass → Prop}
  {i : Instance}

/-- A step keeps the pieces nested. -/
theorem nested_moves (h : Piece.Nested first o.work) (step : Moves r o o') :
    Piece.Nested first o'.work := by
  cases step with
  | follow top lists =>
    rw [top] at h
    exact ⟨⟨[], lists⟩, h⟩
  | walk top gathers =>
    rw [top] at h
    exact ⟨.inl h.1, h.2⟩
  | walkWithin top =>
    rw [top] at h
    obtain ⟨⟨followed, emitter⟩, last, below⟩ := h
    exact ⟨.inr ⟨_, _, _, rfl⟩, ⟨followed ++ [.walk], by rw [emitter, List.append_cons]⟩, last, below⟩
  | followed top =>
    rw [top] at h
    exact h.2.2
  | next top =>
    rw [top] at h
    exact ⟨List.getLast?_concat, h⟩
  | walked top =>
    rw [top] at h
    exact h.2

theorem nested_settles (h : Piece.Nested first o.work) (settles : o.Settles r o') :
    Piece.Nested first o'.work := by
  obtain ⟨steps, -⟩ := settles
  induction steps with
  | refl => exact h
  | tail _ step ih => exact nested_moves ih step

theorem nested_afterPull (h : Piece.Nested first o.work) : Piece.Nested first o.afterPull.work := by
  unfold afterPull
  split
  · next owner receiver spec rest work top =>
    rw [top] at h
    obtain ⟨⟨followed, emitter⟩, last, below⟩ := h
    exact ⟨⟨followed ++ [.make spec], by rw [emitter, List.append_cons]⟩, last, below⟩
  · trivial
  · exact h

/-- An instance that a pull makes is one that the class visited last lists, itself or through an
    ancestor. -/
theorem made_on_top (held : r.Holds l) (h : Piece.Nested first o.work) (settles : o.Settles r o')
    (made : (o.generator.next r).1 = .made i) :
    ∃ c emissions spec, c.emitter? = some (i.target, emissions) ∧ .make spec ∈ emissions ∧
      i.spec = i.target.specOf spec ∧ (o'.afterPull.goingOn = [] → first c) ∧
      ∀ w ∈ o'.afterPull.goingOn.head?, w.visited.getLast? = some c := by
  have nested := nested_settles h settles
  have due := settles.dueIn held
  unfold Generator.next at made
  generalize o.generator.pull r = p at due made
  generalize onTop : o'.work = work at due nested
  cases due with
  | make owner receiver spec rest work =>
    obtain ⟨⟨followed, emitter⟩, last, -⟩ := nested
    obtain rfl := Generator.Next.made.inj made
    refine ⟨receiver, _, spec, emitter, by simp, rfl, ?_⟩
    have left : o'.afterPull.goingOn = work.filterMap Piece.walk? := by
      simp only [afterPull, onTop, goingOn]
      rfl
    rw [left]
    exact last.innermost
  | stop | done => cases made

end Observed

end CaseGen
