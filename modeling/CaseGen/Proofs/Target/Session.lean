import CaseGen.Proofs.Target.Descent
import CaseGen.Target.Session

/-! # What a session does to the registry

    Of the operations of a session only a registration changes what is
    registered: listing and pulling make instances, which are counted.
    An operation on the generator of one key leaves the others alone.

    * `Session.alike_step`   — an operation that does not register
    * `Session.Alike.register` — a registration does the same whatever the counts are
    * `Session.holds_run`    — the registry of a session holds its registrations
    * `Registry.Reached`     — the registries that sessions lead to
    * `generator_keep`, `generator_step` — the generators of the other keys -/

namespace CaseGen

/-! ## Section 1: Instances are counted only -/

namespace Registry

/-- Making an instance does not register. -/
theorem alike_construct (r : Registry) (c : TargetClass) (spec : CaseSpec) :
    r.Alike (r.construct c spec).2 := ⟨rfl, rfl⟩

theorem alike_next (r : Registry) (g : Generator) : r.Alike (g.next r).2.2 := by
  unfold Generator.next
  cases g.pull r with
  | make owner spec rest => exact alike_construct r owner spec
  | stop message => exact .refl r
  | done => exact .refl r

/-- What a generator has left after a pull depends on the registrations only. -/
theorem Alike.next_rest {r r' : Registry} (h : r.Alike r') (g : Generator) :
    (g.next r').2.1 = (g.next r).2.1 := by
  unfold Generator.next
  rw [h.pull]
  cases g.pull r <;> rfl

end Registry

namespace Listing

theorem alike_add (l : Listing) (e : Event) : l.registry.Alike (l.add e).registry := by
  cases e with
  | make owner spec =>
    unfold add
    dsimp only
    split <;> exact Registry.alike_construct l.registry owner spec
  | stop message => exact .refl l.registry

theorem alike_through (l : Listing) (events : List Event) :
    l.registry.Alike (l.through add events).registry := by
  induction events generalizing l with
  | nil => exact .refl l.registry
  | cons e rest ih =>
    unfold through
    split
    · exact .refl l.registry
    · exact (l.alike_add e).trans (ih (l.add e))

end Listing

namespace Registry

/-- Listing cases does not register. -/
theorem alike_listEvents (r : Registry) (events : List Event) :
    r.Alike (r.listEvents events).registry := Listing.alike_through { registry := r } events

theorem alike_list (r : Registry) (c : TargetClass) : r.Alike (r.list c).registry := by
  rw [list_eq_listEvents]
  exact alike_listEvents r (r.events c)

end Registry

/-! ## Section 2: Operations of a session -/

namespace Target.Session

variable {s s' : Session} {a : Action} {l : List Registration} {key : String} {g : Generator}

/-- The operation asks for a registration. -/
def Action.Registers : Action → Bool
  | .register _ _ => true
  | _ => false

/-- The generator that an operation is about. -/
def Action.key? : Action → Option String
  | .start key _ | .pull key | .stop key => some key
  | _ => none

/-- An operation that asks for no registration leaves those that are there. -/
theorem alike_step (h : ¬ a.Registers) (s : Session) : s.registry.Alike (s.step a).2.registry := by
  cases a with
  | register => exact absurd rfl h
  | list c => exact Registry.alike_list s.registry c
  | listEvents events => exact Registry.alike_listEvents s.registry events
  | pull key => exact Registry.alike_next s.registry (s.generator key)
  | subclasses | nextCount | resetCounters | construct | start | stop => exact ⟨rfl, rfl⟩

/-- What a registration does to the registry. -/
theorem registry_step_register (s : Session) (c : TargetClass) (name : String) :
    (s.step (.register c name)).2.registry = (s.registry.call (.register c name)).2 := by
  simp only [step, Registry.call]
  cases s.registry.register c name <;> rfl

theorem generators_step_register (s : Session) (c : TargetClass) (name : String) :
    (s.step (.register c name)).2.generators = s.generators := by
  simp only [step]
  cases s.registry.register c name <;> rfl

/-- A registration does the same whatever has been counted. -/
theorem alike_step_register (alike : s.registry.Alike s'.registry) (h : a.Registers) :
    (s.step a).2.registry.Alike (s'.step a).2.registry := by
  cases a with
  | register c name =>
    rw [registry_step_register, registry_step_register]
    exact (alike.call rfl).2
  | _ => cases h

theorem holds_step (h : s.registry.Holds l) (a : Action) :
    ∃ l', (s.step a).2.registry.Holds l' := by
  by_cases registers : a.Registers
  · cases a with
    | register c name =>
      rw [registry_step_register]
      rcases h.call (.register c name) with ⟨-, -, held⟩ | ⟨-, -, held⟩
      · exact ⟨_, held⟩
      · exact ⟨_, held⟩
    | _ => cases registers
  · exact ⟨l, h.congr (alike_step registers s)⟩

theorem run_append (s : Session) (actions more : List Action) :
    (s.run (actions ++ more)).2 = ((s.run actions).2.run more).2 := by
  induction actions generalizing s with
  | nil => rfl
  | cons a rest ih => exact ih (s.step a).2

theorem holds_run (h : s.registry.Holds l) (actions : List Action) :
    ∃ l', (s.run actions).2.registry.Holds l' := by
  induction actions generalizing s l with
  | nil => exact ⟨l, h⟩
  | cons a rest ih =>
    obtain ⟨l', held⟩ := holds_step h a
    exact ih held

/-! ## Section 3: The generators of a session -/

theorem generator_keep (s : Session) (key : String) (g : Generator) (key' : String) :
    (s.keep key g).generator key' = if key' = key then g else s.generator key' := by
  simp only [generator, keep, List.lookup_cons]
  by_cases same : key' = key
  · simp [same]
  · simp only [beq_false_of_ne same, lookup_filter_ne _ same, if_neg same]

theorem generator_keep_self (s : Session) (key : String) (g : Generator) :
    (s.keep key g).generator key = g := by
  rw [generator_keep, if_pos rfl]

/-- An operation leaves alone the generators that it is not about. -/
theorem generator_step (h : a.key? ≠ some key) (s : Session) :
    (s.step a).2.generator key = s.generator key := by
  have other {key' : String} (h : some key' ≠ some key) : key ≠ key' := by
    rintro rfl
    exact h rfl
  cases a with
  | register c name =>
    simp only [step]
    cases s.registry.register c name <;> rfl
  | start key' g => exact (generator_keep s key' g key).trans (if_neg (other h))
  | pull key' => exact (generator_keep _ key' _ key).trans (if_neg (other h))
  | stop key' => exact (generator_keep s key' [] key).trans (if_neg (other h))
  | subclasses | nextCount | resetCounters | construct | list | listEvents => rfl

end Target.Session

/-- A session leads to this registry. -/
def Registry.Reached (r : Registry) : Prop :=
  ∃ actions, (({} : Target.Session).run actions).2.registry = r

/-- A registry that a session leads to holds some registrations. -/
theorem Registry.Reached.holds {r : Registry} (h : r.Reached) : ∃ l, r.Holds l := by
  obtain ⟨actions, rfl⟩ := h
  exact Target.Session.holds_run Registry.holds_empty actions

end CaseGen
