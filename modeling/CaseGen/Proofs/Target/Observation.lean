import CaseGen.Proofs.Target.Descent
import Mathlib.Logic.Relation

/-! # The walks of a generator, step by step

    A pull may begin and end many walks before it comes to an instance.
    Here it is taken apart into steps, and each walk is seen: whose
    subclasses it walks, in which pull it began, and which classes it has
    visited.  The steps lead to what the pull gives, and each walk visits,
    in order, the subclasses that its class had when the walk began.

    * `Walk`, `Piece`     — what is seen of a walk, and of unfinished work
    * `Observed`          — a generator with the walks seen in it
    * `Observed.Moves`    — one step
    * `Observed.Settles`  — steps up to an instance, a stop or the end
    * `exists_settles`    — they lead to what a pull gives
    * `Observed.Faithful` — the walks visit what is given for their classes -/

namespace CaseGen

/-! ## Section 1: What is seen of a generator -/

/-- What is seen of a walk: the class whose subclasses it walks, the number of pulls before the one
    it began in, and the classes it has visited. -/
structure Walk where
  target : TargetClass
  pull : Nat
  visited : List TargetClass := []

/-- A piece of unfinished work.  A walk that is going on comes with what is seen of it. -/
inductive Piece where
  | visit (c : TargetClass)
  | emit (owner receiver : TargetClass) (rest : List Emission)
  | walk (w : Walk) (rest : List TargetClass)

/-- The piece of work without what is seen. -/
def Piece.frame : Piece → Frame
  | visit c => .visit c
  | emit owner receiver rest => .emit owner receiver rest
  | walk _ rest => .walk rest

/-- The walk that is going on. -/
def Piece.walk? : Piece → Option Walk
  | walk w _ => some w
  | _ => none

namespace Piece

variable {work : List Piece} {c owner receiver : TargetClass} {emissions : List Emission}
  {cs : List TargetClass}

theorem eq_visit_of_frame (h : work.map frame = [.visit c]) : work = [.visit c] := by
  obtain ⟨piece, rfl, frame⟩ := List.map_eq_singleton_iff.mp h
  cases piece with
  | visit c =>
    cases frame
    rfl
  | _ => cases frame

theorem eq_emit_of_frame (h : work.map frame = [.emit owner receiver emissions]) :
    work = [.emit owner receiver emissions] := by
  obtain ⟨piece, rfl, frame⟩ := List.map_eq_singleton_iff.mp h
  cases piece with
  | emit owner receiver rest =>
    cases frame
    rfl
  | _ => cases frame

theorem eq_walk_of_frame (h : work.map frame = [.walk cs]) : ∃ w, work = [.walk w cs] := by
  obtain ⟨piece, rfl, frame⟩ := List.map_eq_singleton_iff.mp h
  cases piece with
  | walk w rest =>
    cases frame
    exact ⟨w, rfl⟩
  | _ => cases frame

end Piece

/-- The work on top is what the pull leads to: an instance or a stop that is due, or none. -/
inductive Pull.DueIn : Pull → List Piece → Prop
  | make (owner receiver : TargetClass) (spec : CaseSpec) (rest : List Emission)
    (work : List Piece) :
    DueIn (.make owner spec ((.emit owner receiver rest :: work).map Piece.frame))
      (.emit owner receiver (.make spec :: rest) :: work)
  | stop (owner receiver : TargetClass) (message : String) (rest : List Emission)
    (work : List Piece) :
    DueIn (.stop message) (.emit owner receiver (.stop message :: rest) :: work)
  | done : DueIn .done []

/-- A generator with the walks that have come to their end, those that were cut short, and the
    number of pulls. -/
structure Observed where
  work : List Piece := []
  ended : List Walk := []
  cut : List Walk := []
  pulls : Nat := 0

namespace Observed

/-- The generator without what is seen. -/
def generator (o : Observed) : Generator := o.work.map Piece.frame

/-- The walks that are going on. -/
def goingOn (o : Observed) : List Walk := o.work.filterMap Piece.walk?

/-- Cuts short the walks that are going on and leaves no work. -/
def giveUp (o : Observed) : Observed := { o with work := [], cut := o.goingOn ++ o.cut }

/-- What is left when the instance that is due is made, or the listing is given up. -/
def afterPull (o : Observed) : Observed :=
  match o.work with
  | .emit owner receiver (.make _ :: rest) :: work =>
    { o with work := .emit owner receiver rest :: work, pulls := o.pulls + 1 }
  | .emit _ _ (.stop _ :: _) :: _ => { o.giveUp with pulls := o.pulls + 1 }
  | _ => { o with pulls := o.pulls + 1 }

/-! ## Section 2: Steps -/

/-- One step of a pull.  There is none if an instance or a stop is due or no work is left. -/
inductive Moves (r : Registry) (o : Observed) : Observed → Prop
  /-- A class that lists cases, itself or through an ancestor, follows the list. -/
  | follow {c owner : TargetClass} {emissions : List Emission} {work : List Piece}
    (top : o.work = .visit c :: work) (lists : c.emitter? = some (owner, emissions)) :
    Moves r o { o with work := .emit owner c emissions :: work }
  /-- Any other class begins to walk its registered subclasses. -/
  | walk {c : TargetClass} {work : List Piece}
    (top : o.work = .visit c :: work) (gathers : c.emitter? = none) :
    Moves r o { o with work := .walk ⟨c, o.pulls, []⟩ (r.subclassesOf c) :: work }
  /-- Within a list, a walk of the subclasses of the receiver begins. -/
  | walkWithin {owner receiver : TargetClass} {rest : List Emission} {work : List Piece}
    (top : o.work = .emit owner receiver (.walk :: rest) :: work) :
    Moves r o { o with
      work := .walk ⟨receiver, o.pulls, []⟩ (r.subclassesOf receiver) ::
        .emit owner receiver rest :: work }
  /-- A list is over. -/
  | followed {owner receiver : TargetClass} {work : List Piece}
    (top : o.work = .emit owner receiver [] :: work) : Moves r o { o with work }
  /-- A walk visits its next class. -/
  | next {w : Walk} {d : TargetClass} {rest : List TargetClass} {work : List Piece}
    (top : o.work = .walk w (d :: rest) :: work) :
    Moves r o { o with work := .visit d :: .walk { w with visited := w.visited ++ [d] } rest :: work }
  /-- A walk comes to its end. -/
  | walked {w : Walk} {work : List Piece} (top : o.work = .walk w [] :: work) :
    Moves r o { o with work, ended := w :: o.ended }

/-- Steps that lead to where there is none. -/
def Settles (o : Observed) (r : Registry) (o' : Observed) : Prop :=
  Relation.ReflTransGen (Moves r) o o' ∧ ∀ o'', ¬ Moves r o' o''

variable {r r' : Registry} {l : List Registration} {o o' : Observed}

/-- There is at most one step. -/
theorem moves_unique : Relator.RightUnique (Moves r) := by
  intro o a b h h'
  -- the work on top decides between the rules, except that a class may be followed or walked
  cases h with
  | follow top lists =>
    cases h' with
    | follow top' lists' =>
      cases top.symm.trans top'
      cases lists.symm.trans lists'
      rfl
    | walk top' gathers =>
      cases top.symm.trans top'
      cases lists.symm.trans gathers
    | _ top' => cases top.symm.trans top'
  | walk top gathers =>
    cases h' with
    | follow top' lists =>
      cases top.symm.trans top'
      cases gathers.symm.trans lists
    | _ top' => cases top.symm.trans top' <;> rfl
  | _ top =>
    cases h' with
    | _ top' => cases top.symm.trans top' <;> rfl

/-- The steps lead to one end. -/
theorem Settles.unique {o'' : Observed} (h : o.Settles r o') (h' : o.Settles r o'') : o' = o'' := by
  rcases Relation.ReflTransGen.total_of_right_unique moves_unique h.1 h'.1 with on | on
  · rcases on.cases_head with same | ⟨next, step, -⟩
    · exact same
    · exact absurd step (h.2 next)
  · rcases on.cases_head with same | ⟨next, step, -⟩
    · exact same.symm
    · exact absurd step (h'.2 next)

/-- The steps do not depend on the counts. -/
theorem Moves.congr (alike : r.Alike r') (h : Moves r o o') : Moves r' o o' := by
  have same := alike.subclassesOf
  cases h with
  | follow top lists => exact .follow top lists
  | walk top gathers =>
    rw [← same]
    exact .walk top gathers
  | walkWithin top =>
    rw [← same]
    exact .walkWithin top
  | followed top => exact .followed top
  | next top => exact .next top
  | walked top => exact .walked top

theorem Settles.congr (alike : r.Alike r') (h : o.Settles r o') : o.Settles r' o' :=
  ⟨h.1.lift id fun _ _ step => step.congr alike,
    fun o'' step => h.2 o'' (step.congr alike.symm)⟩

/-! ## Section 3: The steps of a pull -/

/-- From this work on top, steps lead to what the pull leads to, whatever is below. -/
def ComesTo (r : Registry) (work : List Piece) (p : Pull) : Prop :=
  ∀ o below, o.work = work ++ below →
    ∃ o' top, Relation.ReflTransGen (Moves r) o o' ∧ o'.work = top ++ below ∧ p.DueIn top

variable {p q : Pull} {work later : List Piece}

theorem ComesTo.of_move (h : ∀ o below, o.work = work ++ below →
    ∃ o' work', Moves r o o' ∧ o'.work = work' ++ below ∧ ComesTo r work' p) :
    ComesTo r work p := by
  intro o below onTop
  obtain ⟨o', work', step, onTop', comes⟩ := h o below onTop
  obtain ⟨o'', top, steps, onTop'', due⟩ := comes o' below onTop'
  exact ⟨o'', top, .head step steps, onTop'', due⟩

/-- If there is no case in the work on top, the steps go on to the later work. -/
theorem ComesTo.orElse (h : ComesTo r work p) (h' : ComesTo r later q) :
    ComesTo r (work ++ later) (p.orElse q (later.map Piece.frame)) := by
  intro o below onTop
  obtain ⟨o', top, steps, onTop', due⟩ := h o (later ++ below) (by rw [onTop, List.append_assoc])
  cases due with
  | make owner receiver spec rest work =>
    refine ⟨o', _, steps, by rw [onTop', ← List.append_assoc], ?_⟩
    have due := Pull.DueIn.make owner receiver spec rest (work ++ later)
    rw [← List.cons_append, List.map_append] at due
    exact due
  | stop owner receiver message rest work =>
    refine ⟨o', _, steps, by rw [onTop', ← List.append_assoc], ?_⟩
    exact .stop owner receiver message rest (work ++ later)
  | done =>
    obtain ⟨o'', top, more, onTop'', due⟩ := h' o' below onTop'
    exact ⟨o'', top, steps.trans more, onTop'', due⟩

/-- One step of the observed generator for each step of the pull. -/
theorem comesTo_steps (r : Registry) :
    r.PullSteps fun g p => ∀ work, work.map Piece.frame = g → ComesTo r work p where
  done work same := by
    obtain rfl := List.map_eq_nil_iff.mp same
    exact fun o below onTop => ⟨o, [], .refl, onTop, .done⟩
  above comes comes' work same := by
    obtain ⟨first, later, rfl, rfl, rfl⟩ := List.map_eq_append_iff.mp same
    exact (comes first rfl).orElse (comes' later rfl)
  follow {c _ _ _} emitter comes work same := by
    obtain rfl := Piece.eq_visit_of_frame same
    refine .of_move fun o below onTop => ⟨_, [.emit _ c _], .follow onTop emitter, rfl, ?_⟩
    exact comes _ rfl
  walk {c _} gathers comes work same := by
    obtain rfl := Piece.eq_visit_of_frame same
    refine .of_move fun o below onTop => ⟨_, [.walk _ _], .walk onTop gathers, rfl, ?_⟩
    exact comes _ rfl
  next {d cs _} comes work same := by
    obtain ⟨w, rfl⟩ := Piece.eq_walk_of_frame same
    refine .of_move fun o below onTop => ⟨_, [.visit d, .walk _ cs], .next onTop, rfl, ?_⟩
    exact comes _ rfl
  walked work same := by
    obtain ⟨w, rfl⟩ := Piece.eq_walk_of_frame same
    exact fun o below onTop => ⟨_, [], .single (.walked onTop), rfl, .done⟩
  make {owner receiver spec rest} work same := by
    obtain rfl := Piece.eq_emit_of_frame same
    exact fun o below onTop => ⟨o, _, .refl, onTop, .make owner receiver spec rest []⟩
  stop {owner receiver message rest} work same := by
    obtain rfl := Piece.eq_emit_of_frame same
    exact fun o below onTop => ⟨o, _, .refl, onTop, .stop owner receiver message rest []⟩
  walkWithin {owner receiver rest _} comes work same := by
    obtain rfl := Piece.eq_emit_of_frame same
    refine .of_move fun o below onTop =>
      ⟨_, [.walk _ _, .emit owner receiver rest], .walkWithin onTop, rfl, ?_⟩
    exact comes _ rfl
  followed work same := by
    obtain rfl := Piece.eq_emit_of_frame same
    exact fun o below onTop => ⟨_, [], .single (.followed onTop), rfl, .done⟩

theorem not_moves_of_dueIn (due : p.DueIn o.work) : ¬ Moves r o o' := by
  intro step
  generalize onTop : o.work = work at due
  cases due with
  | _ => cases step with
    | _ top => cases onTop.symm.trans top

/-- The steps of a pull come to an end, and there is due what the pull leads to. -/
theorem exists_settles (h : r.Holds l) (o : Observed) :
    ∃ o', o.Settles r o' ∧ (o.generator.pull r).DueIn o'.work := by
  have comes : ComesTo r o.work (o.generator.pull r) := (comesTo_steps r).pull h _ o.work rfl
  obtain ⟨o', top, steps, onTop, due⟩ := comes o [] (by simp)
  rw [← onTop.trans (List.append_nil top)] at due
  exact ⟨o', ⟨steps, fun o'' => not_moves_of_dueIn due⟩, due⟩

theorem Settles.dueIn (settles : o.Settles r o') (h : r.Holds l) :
    (o.generator.pull r).DueIn o'.work := by
  obtain ⟨o'', settles', due⟩ := exists_settles h o
  rwa [settles.unique settles']

/-- After the steps of a pull the work that is left is what the pull leaves. -/
theorem generator_afterPull (h : r.Holds l) (settles : o.Settles r o') :
    o'.afterPull.generator = (o.generator.next r).2.1 := by
  have due := settles.dueIn h
  unfold Generator.next
  generalize o.generator.pull r = p at due ⊢
  generalize onTop : o'.work = work at due
  cases due with
  | make owner receiver spec rest work => simp [afterPull, onTop, generator, Piece.frame]
  | stop owner receiver message rest work => simp [afterPull, onTop, generator, giveUp]
  | done => simp [afterPull, onTop, generator]

/-- If a pull finds no more work, none is left when its steps are over. -/
theorem work_of_next_done (h : r.Holds l) (settles : o.Settles r o')
    (done : (o.generator.next r).1 = .done) : o'.work = [] := by
  have due := settles.dueIn h
  unfold Generator.next at done
  generalize o.generator.pull r = p at due done
  generalize o'.work = work at due
  cases due with
  | done => rfl
  | _ => cases done

/-! ## Section 4: What a walk visits -/

/-- The walks that are over have visited what is given for their class at the pull they began in,
    and the others have visited the first part of it. -/
structure Faithful (given : Nat → TargetClass → List TargetClass → Prop) (o : Observed) :
    Prop where
  goingOn : ∀ w rest, .walk w rest ∈ o.work → given w.pull w.target (w.visited ++ rest)
  ended : ∀ w ∈ o.ended, given w.pull w.target w.visited
  cut : ∀ w ∈ o.cut, ∃ rest, given w.pull w.target (w.visited ++ rest)

variable {given given' : Nat → TargetClass → List TargetClass → Prop}

theorem mem_goingOn {w : Walk} : w ∈ o.goingOn ↔ ∃ rest, .walk w rest ∈ o.work := by
  simp only [Observed.goingOn, List.mem_filterMap]
  constructor
  · intro mem
    obtain ⟨piece, there, seen⟩ := mem
    cases piece with
    | walk w' rest =>
      cases seen
      exact ⟨rest, there⟩
    | _ => cases seen
  · intro mem
    obtain ⟨rest, there⟩ := mem
    exact ⟨_, there, rfl⟩

theorem Faithful.mono (h : o.Faithful given)
    (more : ∀ n c cs, given n c cs → given' n c cs) : o.Faithful given' where
  goingOn w rest there := more _ _ _ (h.goingOn w rest there)
  ended w there := more _ _ _ (h.ended w there)
  cut w there := by
    obtain ⟨rest, visited⟩ := h.cut w there
    exact ⟨rest, more _ _ _ visited⟩

/-- A step of a walk takes the next of the classes it was given. -/
theorem Faithful.moves (h : o.Faithful given) (begins : ∀ c, given o.pulls c (r.subclassesOf c))
    (step : Moves r o o') : o'.Faithful given ∧ o'.pulls = o.pulls := by
  obtain ⟨goingOn, ended, cut⟩ := h
  cases step with
  | follow top lists =>
    rw [top] at goingOn
    refine ⟨⟨fun w rest there => goingOn w rest ?_, ended, cut⟩, rfl⟩
    simpa using there
  | walk top gathers =>
    rw [top] at goingOn
    refine ⟨⟨fun w rest there => ?_, ended, cut⟩, rfl⟩
    rcases List.mem_cons.mp there with new | old
    · cases new
      exact begins _
    · exact goingOn w rest (List.mem_cons_of_mem _ old)
  | walkWithin top =>
    rw [top] at goingOn
    refine ⟨⟨fun w rest there => ?_, ended, cut⟩, rfl⟩
    rcases List.mem_cons.mp there with new | old
    · cases new
      exact begins _
    · refine goingOn w rest ?_
      simpa using old
  | followed top =>
    rw [top] at goingOn
    exact ⟨⟨fun w rest there => goingOn w rest (List.mem_cons_of_mem _ there), ended, cut⟩, rfl⟩
  | @next w d rest work top =>
    rw [top] at goingOn
    refine ⟨⟨fun w' rest' there => ?_, ended, cut⟩, rfl⟩
    simp only [List.mem_cons, reduceCtorEq, false_or] at there
    rcases there with new | old
    · cases new
      have visited := goingOn w (d :: rest) List.mem_cons_self
      rwa [← List.append_cons] 
    · exact goingOn w' rest' (List.mem_cons_of_mem _ old)
  | @walked w work top =>
    rw [top] at goingOn
    refine ⟨⟨fun w' rest there => goingOn w' rest (List.mem_cons_of_mem _ there), ?_, cut⟩, rfl⟩
    intro w' there
    rcases List.mem_cons.mp there with rfl | there
    · have visited := goingOn w' [] List.mem_cons_self
      rwa [List.append_nil] at visited
    · exact ended w' there

theorem Faithful.settles (h : o.Faithful given) (begins : ∀ c, given o.pulls c (r.subclassesOf c))
    (settles : o.Settles r o') : o'.Faithful given ∧ o'.pulls = o.pulls := by
  obtain ⟨steps, -⟩ := settles
  induction steps with
  | refl => exact ⟨h, rfl⟩
  | tail _ step ih =>
    obtain ⟨faithful, pulls⟩ := ih
    rw [← pulls] at begins
    obtain ⟨faithful', pulls'⟩ := faithful.moves begins step
    exact ⟨faithful', pulls'.trans pulls⟩

theorem Faithful.giveUp (h : o.Faithful given) : o.giveUp.Faithful given where
  goingOn w rest there := by cases there
  ended := h.ended
  cut w there := by
    rcases List.mem_append.mp there with there | there
    · obtain ⟨rest, there⟩ := mem_goingOn.mp there
      exact ⟨rest, h.goingOn w rest there⟩
    · exact h.cut w there

theorem Faithful.afterPull (h : o.Faithful given) : o.afterPull.Faithful given := by
  unfold Observed.afterPull
  split
  · next owner receiver spec rest work top =>
    refine ⟨fun w rest' there => h.goingOn w rest' ?_, h.ended, h.cut⟩
    rw [top]
    simpa using there
  · exact ⟨h.giveUp.goingOn, h.giveUp.ended, h.giveUp.cut⟩
  · exact ⟨h.goingOn, h.ended, h.cut⟩

theorem pulls_afterPull (o : Observed) : o.afterPull.pulls = o.pulls + 1 := by
  unfold Observed.afterPull
  split <;> rfl

/-! ## Section 5: Walks that are cut short -/

/-- Walks have been cut short only if no work is left. -/
def Whole (o : Observed) : Prop := o.cut = [] ∨ o.work = []

theorem cut_eq_of_moves (step : Moves r o o') : o'.cut = o.cut := by
  cases step <;> rfl

theorem not_moves_of_no_work (h : o.work = []) : ¬ Moves r o o' :=
  not_moves_of_dueIn (p := .done) (h ▸ .done)

theorem Settles.cut_eq (settles : o.Settles r o') : o'.cut = o.cut := by
  obtain ⟨steps, -⟩ := settles
  induction steps with
  | refl => rfl
  | tail _ step ih => exact (cut_eq_of_moves step).trans ih

theorem Whole.settles (h : o.Whole) (settles : o.Settles r o') : o'.Whole := by
  rcases h with cut | work
  · exact .inl (settles.cut_eq.trans cut)
  · rcases settles.1.cases_head with rfl | ⟨next, step, -⟩
    · exact .inr work
    · exact absurd step (not_moves_of_no_work work)

theorem Whole.afterPull (h : o.Whole) : o.afterPull.Whole := by
  unfold Observed.afterPull
  split
  · next top =>
    rcases h with cut | work
    · exact .inl cut
    · cases top.symm.trans work
  · exact .inr rfl
  · exact h

end Observed

end CaseGen
