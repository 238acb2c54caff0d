import CaseGen.Proofs.Target.Nesting
import CaseGen.Proofs.Target.Session

/-! # Walks among registrations

    While a generator is at work, classes may be registered, counted and
    listed, and other generators may be at work as well.  Each walk in it
    visits the classes that were registered when the walk began, whatever
    happens afterwards, and the other generators have no part in it.

    * `Session.Watches`, `Session.Watched` — what is seen of the generator of a key during one
      operation, and during a run
    * `Session.RegistryAt`     — the registry at a pull of a key
    * `Watched.faithful`       — each walk visits what was registered when it began
    * `StartedFor`             — the class that the generator of a key lists
    * `Watched.filter`         — only registrations and the operations on the key matter
    * `walks_visit_registered` — all walks of all runs -/

namespace CaseGen.Target.Session

open Text

/-! ## Section 1: What is seen of a generator -/

/-- What is seen of the generator of a key while a session carries out an operation. -/
inductive Watches (key : String) (s : Session) (o : Observed) : Action → Observed → Prop
  /-- A generator of the cases of a class takes the place of the one before. -/
  | start {g : Generator} {c : TargetClass} (cases : g = Generator.start c) :
    Watches key s o (.start key g) { work := [.visit c], pulls := o.pulls }
  /-- A pull goes on, step by step, until it has a result. -/
  | pull {o' : Observed} (settles : o.Settles s.registry o') :
    Watches key s o (.pull key) o'.afterPull
  /-- The walks that are going on are cut short. -/
  | stop : Watches key s o (.stop key) o.giveUp
  /-- Nothing is seen of the other operations. -/
  | other {a : Action} (h : a.key? ≠ some key) : Watches key s o a o

/-- What is seen of the generator of a key in the course of a run. -/
def Watched (key : String) (s : Session) (o : Observed) : List Action → Observed → Prop
  | [], o' => o' = o
  | a :: rest, o' => ∃ m, Watches key s o a m ∧ Watched key (s.step a).2 m rest o'

/-- The operation pulls the generator of a key. -/
def Action.Pulls (key : String) : Action → Bool
  | .pull key' => key' = key
  | _ => false

/-- The operation asks for a registration or is about the generator of a key. -/
def Action.Concerns (key : String) (a : Action) : Bool := a.Registers || a.key? = some key

/-- The registry when the generator of a key is pulled in the course of a run and has been pulled
    `n` times before. -/
def RegistryAt (key : String) (actions : List Action) (n : Nat) (r : Registry) : Prop :=
  ∃ before after, actions = before ++ .pull key :: after ∧
    before.countP (Action.Pulls key) = n ∧ (({} : Session).run before).2.registry = r

variable {s s' : Session} {o o' o'' : Observed} {a : Action} {actions : List Action}
  {key : String} {l : List Registration}

/-! ## Section 2: One operation -/

/-- Something is seen of each operation, if generators of the key are started for classes. -/
theorem exists_watches (h : s.registry.Holds l) (o : Observed)
    (starts : ∀ g, a = .start key g → ∃ c, g = Generator.start c) :
    ∃ o', Watches key s o a o' := by
  by_cases about : a.key? = some key
  · cases a with
    | start key' g =>
      cases about
      obtain ⟨c, cases⟩ := starts g rfl
      exact ⟨_, .start cases⟩
    | pull key' =>
      cases about
      obtain ⟨o', settles, -⟩ := Observed.exists_settles h o
      exact ⟨_, .pull settles⟩
    | stop key' =>
      cases about
      exact ⟨_, .stop⟩
    | _ => cases about
  · exact ⟨o, .other about⟩

theorem Watches.unique (h : Watches key s o a o') (h' : Watches key s o a o'') : o' = o'' := by
  cases h with
  | start cases =>
    cases h' with
    | start cases' =>
      obtain rfl : _ = _ := by simpa [Generator.start] using cases.symm.trans cases'
      rfl
    | other not => exact absurd rfl not
  | pull settles =>
    cases h' with
    | pull settles' => rw [settles.unique settles']
    | other not => exact absurd rfl not
  | stop =>
    cases h' with
    | stop => rfl
    | other not => exact absurd rfl not
  | other not =>
    cases h' with
    | other => rfl
    | _ => exact absurd rfl not

/-- What is seen is the generator that the session keeps under the key. -/
theorem Watches.generator (h : s.registry.Holds l) (same : o.generator = s.generator key)
    (watches : Watches key s o a o') : o'.generator = (s.step a).2.generator key := by
  cases watches with
  | @start g c cases =>
    rw [cases]
    exact (generator_keep_self s key _).symm
  | pull settles =>
    rw [Observed.generator_afterPull h settles, same]
    exact (generator_keep_self _ key _).symm
  | stop => exact (generator_keep_self s key []).symm
  | other not => rw [generator_step not, same]

/-- What is seen depends on the registrations only. -/
theorem Watches.congr (alike : s.registry.Alike s'.registry) (h : Watches key s o a o') :
    Watches key s' o a o' := by
  cases h with
  | start cases => exact .start cases
  | pull settles => exact .pull (settles.congr alike)
  | stop => exact .stop
  | other not => exact .other not

theorem Watches.eq_of_key?_ne (h : Watches key s o a o') (not : a.key? ≠ some key) : o' = o :=
  h.unique (.other not)

/-! ## Section 3: Runs -/

theorem exists_watched (h : s.registry.Holds l) (same : o.generator = s.generator key)
    (starts : ∀ g, .start key g ∈ actions → ∃ c, g = Generator.start c) :
    ∃ o', Watched key s o actions o' := by
  induction actions generalizing s o l with
  | nil => exact ⟨o, rfl⟩
  | cons a rest ih =>
    obtain ⟨m, watches⟩ := exists_watches h o fun g eq => starts g (eq ▸ List.mem_cons_self)
    obtain ⟨l', held⟩ := holds_step h a
    obtain ⟨o', watched⟩ := ih held (watches.generator h same)
      fun g mem => starts g (List.mem_cons_of_mem a mem)
    exact ⟨o', m, watches, watched⟩

theorem Watched.unique (h : Watched key s o actions o') (h' : Watched key s o actions o'') :
    o' = o'' := by
  induction actions generalizing s o with
  | nil => exact h.trans h'.symm
  | cons a rest ih =>
    obtain ⟨m, watches, watched⟩ := h
    obtain ⟨m', watches', watched'⟩ := h'
    obtain rfl := watches.unique watches'
    exact ih watched watched'

theorem Watched.generator (h : s.registry.Holds l) (same : o.generator = s.generator key)
    (watched : Watched key s o actions o') :
    o'.generator = (s.run actions).2.generator key := by
  induction actions generalizing s o l with
  | nil =>
    obtain rfl := watched
    exact same
  | cons a rest ih =>
    obtain ⟨m, watches, watched⟩ := watched
    obtain ⟨l', held⟩ := holds_step h a
    exact ih held (watches.generator h same) watched

/-- Without the operations that neither register nor are about the key, the same is seen. -/
theorem Watched.filter (alike : s.registry.Alike s'.registry) (h : Watched key s o actions o') :
    Watched key s' o (actions.filter (Action.Concerns key)) o' := by
  induction actions generalizing s s' o with
  | nil => exact h
  | cons a rest ih =>
    obtain ⟨m, watches, watched⟩ := h
    by_cases registers : a.Registers
    · rw [List.filter_cons_of_pos (by simp [Action.Concerns, registers])]
      exact ⟨m, watches.congr alike, ih (alike_step_register alike registers) watched⟩
    · have back : (s.step a).2.registry.Alike s'.registry :=
        (alike_step registers s).symm.trans alike
      by_cases about : a.key? = some key
      · rw [List.filter_cons_of_pos (by simp [Action.Concerns, about])]
        exact ⟨m, watches.congr alike, ih (back.trans (alike_step registers s')) watched⟩
      · rw [List.filter_cons_of_neg (by simp [Action.Concerns, registers, about])]
        obtain rfl := watches.eq_of_key?_ne about
        exact ih back watched

/-! ## Section 4: What the walks of a run visit -/

/-- The subclasses of a class when the generator of the key was pulled. -/
def Given (key : String) (actions : List Action) (n : Nat) (c : TargetClass)
    (cs : List TargetClass) : Prop :=
  ∃ r, RegistryAt key actions n r ∧ cs = r.subclassesOf c

theorem RegistryAt.append {n : Nat} {r : Registry} (h : RegistryAt key actions n r)
    (more : List Action) : RegistryAt key (actions ++ more) n r := by
  obtain ⟨before, after, split, count, registry⟩ := h
  exact ⟨before, after ++ more, by rw [split]; simp, count, registry⟩

theorem Given.append {n : Nat} {c : TargetClass} {cs : List TargetClass}
    (h : Given key actions n c cs) (more : List Action) : Given key (actions ++ more) n c cs := by
  obtain ⟨r, registry, visited⟩ := h
  exact ⟨r, registry.append more, visited⟩

theorem Action.key?_of_pulls (h : a.Pulls key) : a.key? = some key := by
  cases a with
  | pull key' => rw [Action.key?, of_decide_eq_true h]
  | _ => cases h

/-- An operation leaves the walks faithful: those that begin are given what is registered. -/
theorem Watches.faithful {past : List Action} (now : (({} : Session).run past).2 = s)
    (faithful : o.Faithful (Given key past)) (pulls : o.pulls = past.countP (Action.Pulls key))
    (h : Watches key s o a o') :
    o'.Faithful (Given key (past ++ [a])) ∧
      o'.pulls = (past ++ [a]).countP (Action.Pulls key) := by
  have still : o.Faithful (Given key (past ++ [a])) := faithful.mono fun _ _ _ h => h.append [a]
  rw [List.countP_append, ← pulls]
  cases h with
  | start => exact ⟨⟨by simp, by simp, by simp⟩, rfl⟩
  | pull settles =>
    have begins (c : TargetClass) :
        Given key (past ++ [.pull key]) o.pulls c (s.registry.subclassesOf c) :=
      ⟨s.registry, ⟨past, [], rfl, pulls.symm, by rw [now]⟩, rfl⟩
    obtain ⟨faithful', pulls'⟩ := still.settles begins settles
    refine ⟨faithful'.afterPull, ?_⟩
    rw [Observed.pulls_afterPull, pulls']
    simp [Action.Pulls]
  | stop => exact ⟨still.giveUp, rfl⟩
  | other not =>
    have noPull : ¬ a.Pulls key := fun h => not (Action.key?_of_pulls h)
    exact ⟨still, by simp [noPull]⟩

/-- Each walk of a run visits what was registered when it began. -/
theorem Watched.faithful (past : List Action) (now : (({} : Session).run past).2 = s)
    (faithful : o.Faithful (Given key past)) (pulls : o.pulls = past.countP (Action.Pulls key))
    (h : Watched key s o actions o') : o'.Faithful (Given key (past ++ actions)) := by
  induction actions generalizing s o past with
  | nil =>
    obtain rfl := h
    rwa [List.append_nil]
  | cons a rest ih =>
    obtain ⟨m, watches, watched⟩ := h
    obtain ⟨faithful', pulls'⟩ := watches.faithful now faithful pulls
    have next : (({} : Session).run (past ++ [a])).2 = (s.step a).2 := by
      rw [run_append, now]
      rfl
    rw [List.append_cons]
    exact ih _ next faithful' pulls' watched

/-! ## Section 5: The class of an instance -/

/-- The generator of the key was started for the class, and for no other one since. -/
def StartedFor (key : String) (actions : List Action) (c : TargetClass) : Prop :=
  ∃ before after, actions = before ++ .start key (Generator.start c) :: after ∧
    ∀ g, .start key g ∉ after

theorem StartedFor.append {past : List Action} {c : TargetClass} (h : StartedFor key past c)
    (other : ∀ g, a ≠ .start key g) : StartedFor key (past ++ [a]) c := by
  obtain ⟨before, after, split, none⟩ := h
  refine ⟨before, after ++ [a], by rw [split]; simp, ?_⟩
  intro g mem
  rcases List.mem_append.mp mem with mem | mem
  · exact none g mem
  · exact other g (List.mem_singleton.mp mem).symm

/-- An operation keeps the work of the generator nested. -/
theorem Watches.nested {past : List Action} (nested : Piece.Nested (StartedFor key past) o.work)
    (h : Watches key s o a o') : Piece.Nested (StartedFor key (past ++ [a])) o'.work := by
  have still (other : ∀ g, a ≠ .start key g) : Piece.Nested (StartedFor key (past ++ [a])) o.work :=
    nested.mono fun c started => started.append other
  cases h with
  | start cases => exact ⟨⟨past, [], by rw [cases], by simp⟩, trivial⟩
  | pull settles => exact Observed.nested_afterPull (Observed.nested_settles (still (by simp)) settles)
  | stop => exact trivial
  | other not =>
    apply still
    rintro g rfl
    exact not rfl

theorem Watched.nested (past : List Action) (nested : Piece.Nested (StartedFor key past) o.work)
    (h : Watched key s o actions o') : Piece.Nested (StartedFor key (past ++ actions)) o'.work := by
  induction actions generalizing s o past with
  | nil =>
    obtain rfl := h
    rwa [List.append_nil]
  | cons a rest ih =>
    obtain ⟨m, watches, watched⟩ := h
    rw [List.append_cons]
    exact ih _ (watches.nested nested) watched

/-- An instance that a pull makes is one that the class on top of the walks lists. -/
theorem Watches.made_on_top {past : List Action} {i : Instance} (held : s.registry.Holds l)
    (same : o.generator = s.generator key) (nested : Piece.Nested (StartedFor key past) o.work)
    (made : (s.step (.pull key)).1 = .pulled (.made i)) (watches : Watches key s o (.pull key) o') :
    ∃ c emissions spec, c.emitter? = some (i.target, emissions) ∧ .make spec ∈ emissions ∧
      i.spec = i.target.specOf spec ∧ (o'.goingOn = [] → StartedFor key past c) ∧
      ∀ w ∈ o'.goingOn.head?, w.visited.getLast? = some c := by
  cases watches with
  | pull settles =>
    apply Observed.made_on_top held nested settles
    rw [same]
    exact Reply.pulled.inj made
  | other not => exact absurd rfl not

/-! ## Section 6: Generators that run to their end -/

/-- The run ends with a pull that finds no more work in the generator of the key. -/
def RunsOut (key : String) (actions : List Action) : Prop :=
  ∃ before, actions = before ++ [.pull key] ∧
    (({} : Session).run before).2.generator key ≠ [] ∧
    ((({} : Session).run before).2.step (.pull key)).1 = .pulled .done

theorem Watches.whole (h : Watches key s o a o') (whole : o.Whole) : o'.Whole := by
  cases h with
  | start => exact .inl rfl
  | pull settles => exact (whole.settles settles).afterPull
  | stop => exact .inr rfl
  | other => exact whole

theorem Watched.whole (h : Watched key s o actions o') (whole : o.Whole) : o'.Whole := by
  induction actions generalizing s o with
  | nil =>
    obtain rfl := h
    exact whole
  | cons a rest ih =>
    obtain ⟨m, watches, watched⟩ := h
    exact ih watched (watches.whole whole)

theorem Watched.split {more : List Action} (h : Watched key s o (actions ++ more) o'') :
    ∃ o', Watched key s o actions o' ∧ Watched key (s.run actions).2 o' more o'' := by
  induction actions generalizing s o with
  | nil => exact ⟨o, rfl, h⟩
  | cons a rest ih =>
    obtain ⟨m, watches, watched⟩ := h
    obtain ⟨o', first, last⟩ := ih watched
    exact ⟨o', ⟨m, watches, first⟩, last⟩

/-- A pull that finds no more work leaves no walk unfinished. -/
theorem Watches.none_unfinished (h : s.registry.Holds l) (same : o.generator = s.generator key)
    (whole : o.Whole) (work : s.generator key ≠ [])
    (reply : (s.step (.pull key)).1 = .pulled .done) (watches : Watches key s o (.pull key) o') :
    o'.work = [] ∧ o'.cut = [] := by
  cases watches with
  | @pull m settles =>
    have done : (o.generator.next s.registry).1 = .done := by
      rw [same]
      exact Reply.pulled.inj reply
    have noWork : m.work = [] := Observed.work_of_next_done h settles done
    have noneCut : m.cut = [] := by
      rcases whole with cut | noWork'
      · exact settles.cut_eq.trans cut
      · rw [← same, Observed.generator, noWork'] at work
        exact absurd rfl work
    simp [Observed.afterPull, noWork, noneCut]
  | other not => exact absurd rfl not

/-! ## Section 7: All walks of all runs -/

/-- In every run, a walk that comes to its end has visited the classes that were registered below
    its class when it began, each once and in the order of their names.  A walk that is going on
    has visited the first of them and has the others left, and one that was cut short has visited
    the first of them.  A generator that runs to its end leaves no walk unfinished.  An instance
    that a pull makes is one that the class lists which the innermost walk has visited last.  Nothing
    but registrations and the operations on the generator itself has a part in it. -/
theorem walks_visit_registered (actions : List Action) (key : String)
    (starts : ∀ g, .start key g ∈ actions → ∃ c, g = Generator.start c) :
    ∃ o : Observed,
      -- what is seen in the run
      (∀ o', Watched key {} {} actions o' ↔ o' = o) ∧
      o.generator = (({} : Session).run actions).2.generator key ∧
      -- the classes that are visited
      (∀ w ∈ o.ended, ∃ r, RegistryAt key actions w.pull r ∧ w.visited = r.subclassesOf w.target) ∧
      (∀ w rest, .walk w rest ∈ o.work → ∃ r, RegistryAt key actions w.pull r ∧
        w.visited ++ rest = r.subclassesOf w.target) ∧
      (∀ w ∈ o.cut, ∃ r, RegistryAt key actions w.pull r ∧
        w.visited <+: r.subclassesOf w.target) ∧
      (RunsOut key actions → o.work = [] ∧ o.cut = []) ∧
      -- the instances that pulls make
      (∀ before i, actions = before ++ [.pull key] →
        ((({} : Session).run before).2.step (.pull key)).1 = .pulled (.made i) →
        ∃ c emissions spec, c.emitter? = some (i.target, emissions) ∧ .make spec ∈ emissions ∧
          i.spec = i.target.specOf spec ∧ (o.goingOn = [] → StartedFor key before c) ∧
          ∀ w ∈ o.goingOn.head?, w.visited.getLast? = some c) ∧
      -- the registered classes, in order
      (∀ n r c, RegistryAt key actions n r →
        r.subclassesOf c = (r.childrenOf (some c)).map Registration.target ∧
        Increasing Registration.name (r.childrenOf (some c)) ∧ (r.subclassesOf c).Nodup ∧
        ∀ d, d ∈ r.subclassesOf c ↔ d ∈ r.registered ∧ d.parent? = some c) ∧
      -- the other generators
      Watched key {} {} (actions.filter (Action.Concerns key)) o := by
  have empty : ({} : Session).registry.Holds [] := Registry.holds_empty
  obtain ⟨o, watched⟩ := exists_watched empty (o := {}) rfl starts
  have faithful : o.Faithful (Given key actions) :=
    watched.faithful [] rfl ⟨by simp, by simp, by simp⟩ rfl
  refine ⟨o, ?_, watched.generator empty rfl, faithful.ended, faithful.goingOn, ?_, ?_, ?_, ?_,
    watched.filter (.refl _)⟩
  · intro o'
    exact ⟨fun watched' => watched'.unique watched, fun same => same ▸ watched⟩
  · intro w there
    obtain ⟨rest, r, registry, visited⟩ := faithful.cut w there
    exact ⟨r, registry, rest, visited⟩
  · intro runsOut
    obtain ⟨before, rfl, work, reply⟩ := runsOut
    obtain ⟨o', first, m, watches, rfl⟩ := watched.split
    obtain ⟨l, held⟩ := holds_run empty before
    exact watches.none_unfinished held (first.generator empty rfl) (first.whole (.inl rfl))
      work reply
  · intro before i split made
    subst split
    obtain ⟨o', first, m, watches, rfl⟩ := watched.split
    obtain ⟨l, held⟩ := holds_run empty before
    have nested := Watched.nested (o := {}) [] trivial first
    exact watches.made_on_top held (first.generator empty rfl) nested made
  · intro n r c registry
    obtain ⟨before, -, -, -, rfl⟩ := registry
    obtain ⟨l, held⟩ := holds_run empty before
    refine ⟨rfl, held.increasing (some c), held.nodup_subclassesOf c, fun d => ?_⟩
    rw [held.mem_subclassesOf, held.registered]

/-- Of two classes that are registered after the first pull, the one in the group that is still to
    come is visited, and the one beside it is not. -/
theorem walks_visit_registered_meanwhile :
    let group : TargetClass := .sub 0 .base { name := "G" }
    let first : TargetClass := .sub 1 .base { name := "A", emissions := some [.make {}] }
    let inGroup : TargetClass := .sub 2 group { name := "I", emissions := some [.make {}] }
    let beside : TargetClass := .sub 3 .base { name := "B", emissions := some [.make {}] }
    let actions : List Action :=
      [.register group, .register first, .start "g" (Generator.start .base), .pull "g",
        .register inGroup, .register beside, .pull "g"]
    ∃ o, Watched "g" {} {} actions o ∧
      o.generator = [.emit inGroup inGroup [], .walk [], .walk []] := by
  intro group first inGroup beside actions
  have starts : ∀ g, .start "g" g ∈ actions → ∃ c, g = Generator.start c := by
    intro g mem
    refine ⟨.base, ?_⟩
    simpa [actions] using mem
  obtain ⟨o, watched, generator, -⟩ := walks_visit_registered actions "g" starts
  refine ⟨o, (watched o).mpr rfl, generator.trans ?_⟩
  decide +kernel

end CaseGen.Target.Session
