import CaseGen.Proofs.Target.Descent
import CaseGen.Proofs.Target.Session

/-! # Generators that are pulled to their end

    A generator makes one instance at each pull.  Pulled again and again it
    makes an instance for each event of the work it has left, in order, up
    to the first stop.  The registrations do not change meanwhile, so these
    events are the same from the first pull to the last.

    * `Generator.events`    — the events of the work that is left
    * `Pull.Takes`          — a pull takes the first of some events
    * `Holds.pull_takes`    — the pull of a generator takes the first of its events
    * `Registry.Drains`     — pulling a generator to its end
    * `Registry.follow`     — making the instances of events up to the first stop
    * `Holds.drains_follow`, `Drains.eq_follow` — pulling comes to an end and follows the events
    * `drains_ofEmissions_iff`, `made_follow_make` — emissions that only make instances
    * `Registry.DrainsInTurn` — classes one after the other, up to the first stop -/

namespace CaseGen

variable {r r' : Registry} {l : List Registration} {c : TargetClass} {g : Generator}

/-! ## Section 1: The events of unfinished work -/

/-- The events of a class, those after a stop among them. -/
def Registry.allEvents (r : Registry) (c : TargetClass) : List Event := r.eventsWithin r.levels c

/-- The events of a piece of unfinished work. -/
def Frame.events (r : Registry) : Frame → List Event
  | .visit c => r.allEvents c
  | .emit owner receiver rest =>
    Event.ofEmissions ((r.subclassesOf receiver).flatMap r.allEvents) owner rest
  | .walk rest => rest.flatMap r.allEvents

/-- The events of the work that a generator has left. -/
def Generator.events (r : Registry) (g : Generator) : List Event := g.flatMap (Frame.events r)

theorem Generator.events_append (r : Registry) (g g' : Generator) :
    Generator.events r (g ++ g') = g.events r ++ g'.events r := List.flatMap_append

theorem Generator.events_singleton (r : Registry) (f : Frame) :
    Generator.events r [f] = f.events r := by
  simp [Generator.events]

theorem Generator.events_start (r : Registry) (c : TargetClass) :
    (Generator.start c).events r = r.allEvents c := Generator.events_singleton r (.visit c)

/-- The events of a class are those of the work that a visit takes up. -/
theorem Registry.Holds.allEvents_eq (h : r.Holds l) (c : TargetClass) :
    r.allEvents c =
      match c.emitter? with
      | some (owner, emissions) => (Frame.emit owner c emissions).events r
      | none => (Frame.walk (r.subclassesOf c)).events r := by
  refine h.within_eq r.eventsWithin
    (fun events c =>
      match c.emitter? with
      | some (owner, emissions) =>
        Event.ofEmissions ((r.subclassesOf c).flatMap events) owner emissions
      | none => (r.subclassesOf c).flatMap events) (fun _ _ => rfl) ?_ c
  intro events events' c same
  simp only [List.flatMap_congr same]

theorem Registry.Holds.events_follow (h : r.Holds l) {owner : TargetClass}
    {emissions : List Emission} (emitter : c.emitter? = some (owner, emissions)) :
    Generator.events r [.visit c] = Generator.events r [.emit owner c emissions] := by
  rw [Generator.events_singleton, Generator.events_singleton, Frame.events, h.allEvents_eq, emitter]

theorem Registry.Holds.events_walk (h : r.Holds l) (gathers : c.emitter? = none) :
    Generator.events r [.visit c] = Generator.events r [.walk (r.subclassesOf c)] := by
  rw [Generator.events_singleton, Generator.events_singleton, Frame.events, h.allEvents_eq, gathers]

theorem Generator.events_next (r : Registry) (d : TargetClass) (cs : List TargetClass) :
    Generator.events r [.walk (d :: cs)] = Generator.events r [.visit d, .walk cs] := by
  simp [Generator.events, Frame.events]

theorem Generator.events_make (r : Registry) (owner receiver : TargetClass) (spec : CaseSpec)
    (rest : List Emission) :
    Generator.events r [.emit owner receiver (.make spec :: rest)] =
      .make owner spec :: Generator.events r [.emit owner receiver rest] := by
  simp [Generator.events, Frame.events, Event.ofEmissions]

theorem Generator.events_walkWithin (r : Registry) (owner receiver : TargetClass)
    (rest : List Emission) :
    Generator.events r [.emit owner receiver (.walk :: rest)] =
      Generator.events r [.walk (r.subclassesOf receiver), .emit owner receiver rest] := by
  simp [Generator.events, Frame.events, Event.ofEmissions]

theorem Registry.Alike.allEvents (h : r.Alike r') : r'.allEvents = r.allEvents := by
  have within (n : Nat) : r'.eventsWithin n = r.eventsWithin n := by
    induction n with
    | zero => rfl
    | succ n ih =>
      funext c
      simp only [Registry.eventsWithin, ih, h.subclassesOf]
  funext c
  rw [Registry.allEvents, Registry.allEvents, h.levels, within]

/-- The counts have no part in what is to be done. -/
theorem Registry.Alike.events (h : r.Alike r') (g : Generator) : g.events r' = g.events r := by
  have frames : Frame.events r' = Frame.events r := by
    funext f
    cases f with
    | visit c => simp only [Frame.events, h.allEvents]
    | emit owner receiver rest => simp only [Frame.events, h.allEvents, h.subclassesOf]
    | walk rest => simp only [Frame.events, h.allEvents]
  rw [Generator.events, Generator.events, frames]

/-! ## Section 2: One pull -/

/-- What a pull leads to if these are the events of the work: the first of them, with work for the
    others left over. -/
inductive Pull.Takes (r : Registry) : Pull → List Event → Prop
  | make (owner : TargetClass) (spec : CaseSpec) (rest : Generator) :
    Takes r (.make owner spec rest) (.make owner spec :: rest.events r)
  | stop (message : String) (rest : List Event) : Takes r (.stop message) (.stop message :: rest)
  | done : Takes r .done []

/-- If there is no event before the later work, the pull goes on to it. -/
theorem Pull.Takes.orElse {p q : Pull} {events : List Event} {later : Generator}
    (h : p.Takes r events) (h' : q.Takes r (later.events r)) :
    (p.orElse q later).Takes r (events ++ later.events r) := by
  cases h with
  | make owner spec rest =>
    rw [List.cons_append, ← Generator.events_append]
    exact .make owner spec (rest ++ later)
  | stop message rest => exact .stop message _
  | done => exact h'

namespace Registry

/-- Each step of a pull keeps the events, so the first of them is still the first. -/
theorem Holds.takes_steps (h : r.Holds l) : r.PullSteps fun g p => p.Takes r (g.events r) where
  done := .done
  above takes takes' := by
    rw [Generator.events_append]
    exact takes.orElse takes'
  follow emitter takes := by rwa [h.events_follow emitter]
  walk gathers takes := by rwa [h.events_walk gathers]
  next takes := by rwa [Generator.events_next]
  walked := .done
  make {owner receiver spec rest} := by
    rw [Generator.events_make]
    exact .make owner spec _
  stop := .stop _ _
  walkWithin takes := by rwa [Generator.events_walkWithin]
  followed := .done

/-- A pull takes the first of the events of the generator. -/
theorem Holds.pull_takes (h : r.Holds l) (g : Generator) : (g.pull r).Takes r (g.events r) :=
  h.takes_steps.pull h g

/-- What a pull gives is the first of the events of the generator. -/
theorem Holds.next_cases (h : r.Holds l) (g : Generator) :
    (g.events r = [] ∧ g.next r = (.done, [], r)) ∨
    (∃ message rest, g.events r = .stop message :: rest ∧
      g.next r = (.stopped message, [], r)) ∨
    ∃ owner spec rest, g.events r = .make owner spec :: rest.events r ∧
      g.next r = (.made (r.construct owner spec).1, rest, (r.construct owner spec).2) := by
  have takes := h.pull_takes g
  unfold Generator.next
  generalize g.pull r = p at takes ⊢
  generalize g.events r = events at takes ⊢
  cases takes with
  | make owner spec rest => exact .inr (.inr ⟨owner, spec, rest, rfl, rfl⟩)
  | stop message rest => exact .inr (.inl ⟨message, rest, rfl, rfl⟩)
  | done => exact .inl ⟨rfl, rfl⟩

end Registry

/-! ## Section 3: All pulls -/

/-- What comes of a generator that is pulled to its end: the instances that were made, the message
    if it was given up, and the registry it leaves. -/
structure Drained where
  made : List Instance
  stopped : Option String
  registry : Registry

namespace Registry

/-- Pulling a generator until it is given up or has no work left. -/
inductive Drains : Registry → Generator → Drained → Prop
  | done {r r' : Registry} {g g' : Generator} (h : g.next r = (.done, g', r')) :
    Drains r g ⟨[], none, r'⟩
  | stopped {r r' : Registry} {g g' : Generator} {message : String}
    (h : g.next r = (.stopped message, g', r')) : Drains r g ⟨[], some message, r'⟩
  | made {r r' : Registry} {g g' : Generator} {i : Instance} {d : Drained}
    (h : g.next r = (.made i, g', r')) (rest : Drains r' g' d) :
    Drains r g { d with made := i :: d.made }

/-- Makes the instances of events up to the first stop. -/
def follow (r : Registry) : List Event → Drained
  | [] => ⟨[], none, r⟩
  | .make owner spec :: rest =>
    let d := (r.construct owner spec).2.follow rest
    { d with made := (r.construct owner spec).1 :: d.made }
  | .stop message :: _ => ⟨[], some message, r⟩

/-- A generator that is pulled to its end follows its events. -/
theorem Drains.eq_follow {d : Drained} (drains : r.Drains g d) (h : r.Holds l) :
    d = r.follow (g.events r) := by
  induction drains with
  | @done r r' g g' next =>
    rcases h.next_cases g with ⟨events, eq⟩ | ⟨_, _, _, eq⟩ | ⟨_, _, _, _, eq⟩ <;>
      cases next.symm.trans eq
    rw [events, follow]
  | @stopped r r' g g' message next =>
    rcases h.next_cases g with ⟨_, eq⟩ | ⟨_, _, events, eq⟩ | ⟨_, _, _, _, eq⟩ <;>
      cases next.symm.trans eq
    rw [events, follow]
  | @made r r' g g' i d next _ ih =>
    rcases h.next_cases g with ⟨_, eq⟩ | ⟨_, _, _, eq⟩ | ⟨owner, spec, _, events, eq⟩ <;>
      cases next.symm.trans eq
    -- the events that are left are the same after the count
    have alike := alike_construct r owner spec
    rw [events, follow, ih (h.congr alike), alike.events]

/-- Pulling a generator comes to an end: each pull takes one of finitely many events. -/
theorem Holds.drains_follow (h : r.Holds l) (g : Generator) :
    r.Drains g (r.follow (g.events r)) := by
  generalize same : g.events r = events
  induction events generalizing r g with
  | nil =>
    rcases h.next_cases g with ⟨_, eq⟩ | ⟨_, _, events, _⟩ | ⟨_, _, _, events, _⟩
    · exact .done eq
    · cases same.symm.trans events
    · cases same.symm.trans events
  | cons e events ih =>
    rcases h.next_cases g with ⟨events, _⟩ | ⟨_, _, events, eq⟩ | ⟨owner, spec, rest, events, eq⟩ <;>
      cases same.symm.trans events
    · exact .stopped eq
    · have alike := alike_construct r owner spec
      exact .made eq (ih (h.congr alike) rest (alike.events rest))

theorem Holds.drains_iff (h : r.Holds l) {d : Drained} :
    r.Drains g d ↔ d = r.follow (g.events r) := by
  constructor
  · intro drains
    exact drains.eq_follow h
  · intro same
    rw [same]
    exact h.drains_follow g

/-- Following events does not register. -/
theorem alike_follow (r : Registry) (events : List Event) : r.Alike (r.follow events).registry := by
  induction events generalizing r with
  | nil => exact .refl r
  | cons e rest ih =>
    cases e with
    | make owner spec => exact (alike_construct r owner spec).trans (ih _)
    | stop message => exact .refl r

/-- Each instance that is made is counted for its class, and nothing else is counted. -/
theorem count_follow (r : Registry) (events : List Event) (k : TargetClass) :
    (r.follow events).registry.count k =
      r.count k + (r.follow events).made.countP fun i => i.target = k := by
  induction events generalizing r with
  | nil => rfl
  | cons e rest ih =>
    cases e with
    | make owner spec =>
      have counted : (r.construct owner spec).2.count k = r.count k + if owner = k then 1 else 0 :=
        count_bump r owner k
      have target : (r.construct owner spec).1.target = owner := rfl
      simp only [follow, ih, counted, List.countP_cons, target, decide_eq_true_eq]
      omega
    | stop message => rfl

/-! ## Section 4: Emissions that only make instances -/

/-- A generator that only makes instances makes all of them, whatever is registered. -/
theorem drains_ofEmissions_iff {specs : List CaseSpec} {d : Drained} :
    r.Drains (Generator.ofEmissions c (specs.map .make)) d ↔ d = r.follow (specs.map (.make c)) := by
  -- a pull takes the first emission and reads no registration, so the registry may be any
  induction specs generalizing r d with
  | nil =>
    have next : (Generator.ofEmissions c []).next r = (.done, [], r) := rfl
    constructor
    · intro drains
      cases drains with
      | done next' =>
        cases next.symm.trans next'
        rfl
      | stopped next' => cases next.symm.trans next'
      | made next' _ => cases next.symm.trans next'
    · intro same
      subst same
      exact .done next
  | cons spec specs ih =>
    have next : (Generator.ofEmissions c (.make spec :: specs.map .make)).next r =
        (.made (r.construct c spec).1, Generator.ofEmissions c (specs.map .make),
          (r.construct c spec).2) := rfl
    constructor
    · intro drains
      cases drains with
      | done next' => cases next.symm.trans next'
      | stopped next' => cases next.symm.trans next'
      | made next' rest =>
        cases next.symm.trans next'
        rw [ih.mp rest]
        rfl
    · intro same
      subst same
      exact .made next (ih.mpr rfl)

theorem stopped_follow_make (r : Registry) (c : TargetClass) (specs : List CaseSpec) :
    (r.follow (specs.map (.make c))).stopped = none := by
  induction specs generalizing r with
  | nil => rfl
  | cons spec specs ih => exact ih (r.construct c spec).2

/-- Instances of one class have consecutive numbers, the first one after the count of the class. -/
theorem made_follow_make (r : Registry) (c : TargetClass) (specs : List CaseSpec) :
    (r.follow (specs.map (.make c))).made =
      specs.mapIdx fun k spec => ⟨c, r.count c + (k + 1), c.specOf spec⟩ := by
  induction specs generalizing r with
  | nil => rfl
  | cons spec specs ih =>
    have later (k : Nat) : r.count c + 1 + (k + 1) = r.count c + (k + 1 + 1) := by omega
    show (r.construct c spec).1 :: ((r.construct c spec).2.follow (specs.map (.make c))).made = _
    rw [ih, count_construct_self, List.mapIdx_cons]
    simp only [later]
    rfl

/-! ## Section 5: Classes in turn -/

/-- Pulling the generators of classes to their ends, one after the other, until one of them is given
    up. -/
inductive DrainsInTurn : Registry → List TargetClass → Drained → Prop
  | nil {r : Registry} : DrainsInTurn r [] ⟨[], none, r⟩
  | cons {r : Registry} {c : TargetClass} {cs : List TargetClass} {d d' : Drained}
    (first : r.Drains (Generator.start c) d) (goesOn : d.stopped = none)
    (rest : DrainsInTurn d.registry cs d') :
    DrainsInTurn r (c :: cs) { d' with made := d.made ++ d'.made }
  | stopped {r : Registry} {c : TargetClass} {cs : List TargetClass} {d : Drained}
    (first : r.Drains (Generator.start c) d) (stop : d.stopped.isSome) : DrainsInTurn r (c :: cs) d

/-- Events after a stop are not followed. -/
theorem follow_append_of_stopped {events : List Event} (h : (r.follow events).stopped.isSome)
    (later : List Event) : r.follow (events ++ later) = r.follow events := by
  induction events generalizing r with
  | nil => cases h
  | cons e rest ih =>
    cases e with
    | make owner spec =>
      simp only [List.cons_append, follow]
      rw [ih h]
    | stop message => rfl

/-- Without a stop the later events are followed after the earlier ones. -/
theorem follow_append_of_not_stopped {events : List Event} (h : (r.follow events).stopped = none)
    (later : List Event) :
    r.follow (events ++ later) =
      { (r.follow events).registry.follow later with
        made := (r.follow events).made ++ ((r.follow events).registry.follow later).made } := by
  induction events generalizing r with
  | nil => rfl
  | cons e rest ih =>
    cases e with
    | make owner spec =>
      simp only [List.cons_append, follow]
      rw [ih h]
    | stop message => cases h

/-- Classes that are drained in turn follow their events. -/
theorem Holds.drainsInTurn_iff (h : r.Holds l) {cs : List TargetClass} {d : Drained} :
    r.DrainsInTurn cs d ↔ d = r.follow (cs.flatMap r.allEvents) := by
  induction cs generalizing r d with
  | nil =>
    constructor
    · intro drains
      cases drains
      rfl
    · intro same
      rw [same]
      exact .nil
  | cons c cs ih =>
    have first {d : Drained} : r.Drains (Generator.start c) d ↔ d = r.follow (r.allEvents c) := by
      rw [h.drains_iff, Generator.events_start]
    have alike := alike_follow r (r.allEvents c)
    have rest {d : Drained} := ih (h.congr alike) (d := d)
    rw [alike.allEvents] at rest
    rw [List.flatMap_cons]
    constructor
    · intro drains
      cases drains with
      | cons one goesOn others =>
        obtain rfl := first.mp one
        rw [follow_append_of_not_stopped goesOn, ← rest.mp others]
      | stopped one stop =>
        obtain rfl := first.mp one
        rw [follow_append_of_stopped stop]
    · intro same
      rw [same]
      cases stop : (r.follow (r.allEvents c)).stopped with
      | some message =>
        have isSome : (r.follow (r.allEvents c)).stopped.isSome := by rw [stop]; rfl
        rw [follow_append_of_stopped isSome]
        exact .stopped (first.mpr rfl) isSome
      | none =>
        rw [follow_append_of_not_stopped stop]
        exact .cons (first.mpr rfl) stop (rest.mpr rfl)

end Registry

end CaseGen
