import CaseGen.Target.Registry
import CaseGen.TestCase.Lines

/-! # The cases of a class, all at once

    A class that lists its own cases follows its list; any other class
    walks its registered subclasses in name order.  A list belongs to the
    class that gave it and makes instances of that class, but a walk within
    it is one of the class that was asked.

    A listing makes the instances on the way and ends at the first failure,
    so that what comes after it is never walked.

    * `Event`               — an instance to be made, or a stop
    * `Registry.events`     — the events of a class, up to the first stop
    * `Listing`             — the lines of cases, the instances being made
    * `Registry.list`       — the listing of a class
    * `list_eq_listEvents`  — it is the listing of the events of the class -/

namespace CaseGen

/-! ## Section 1: Events -/

/-- What happens next while the cases of a class are listed. -/
inductive Event where
  /-- An instance of `owner` is made. -/
  | make (owner : TargetClass) (spec : CaseSpec)
  /-- The listing is given up. -/
  | stop (message : String)
  deriving DecidableEq, Repr

namespace Event

/-- The events up to and including the first stop. -/
def untilStop : List Event → List Event
  | [] => []
  | make owner spec :: rest => make owner spec :: untilStop rest
  | stop message :: _ => [stop message]

/-- The events of a list of emissions, given those of a walk. -/
def ofEmissions (walk : List Event) (owner : TargetClass) (l : List Emission) : List Event :=
  l.flatMap fun
    | .make spec => [make owner spec]
    | .walk => walk
    | .stop message => [stop message]

end Event

namespace Registry

/-- The events of a class, down to `levels` classes below each other. -/
def eventsWithin (r : Registry) : (levels : Nat) → TargetClass → List Event
  | 0, _ => []
  | levels + 1, c =>
    let walk := (r.subclassesOf c).flatMap (r.eventsWithin levels)
    match c.emitter? with
    | some (owner, l) => Event.ofEmissions walk owner l
    | none => walk

/-- A bound on the levels of a walk: each level below the first is a registered class,
    and no class comes twice in a chain. -/
def levels (r : Registry) : Nat := r.registered.length + 1

/-- The events of a class, up to the first stop. -/
def events (r : Registry) (c : TargetClass) : List Event :=
  Event.untilStop (r.eventsWithin r.levels c)

end Registry

/-! ## Section 2: Listings -/

/-- The lines of cases, the last case first, with the registry that their instances leave,
    and why there are no more of them if something failed. -/
structure Listing where
  registry : Registry
  reversed : List (List String) := []
  failed : Option Failure := none

namespace Listing

/-- The lines of the cases in order. -/
def cases (l : Listing) : List (List String) := l.reversed.reverse

/-- Follows an event: an instance is made and the lines of its case are added, unless the
    case has none. -/
def add (l : Listing) : Event → Listing
  | .make owner spec =>
    let (i, registry) := l.registry.construct owner spec
    match i.draft.lines with
    | .error f => { l with registry, failed := some f }
    | .ok lines => { l with registry, reversed := lines :: l.reversed }
  | .stop message => { l with failed := some (.stopped message) }

/-- Goes through a list item by item, up to the first failure. -/
def through {α : Type} (step : Listing → α → Listing) (l : Listing) : List α → Listing
  | [] => l
  | a :: rest => if l.failed.isSome then l else through step (step l a) rest

variable {α β : Type}

theorem through_of_failed {step : Listing → α → Listing} {l : Listing} (h : l.failed.isSome)
    (items : List α) : l.through step items = l := by
  cases items <;> simp [through, h]

theorem through_append (step : Listing → α → Listing) (l : Listing) (as bs : List α) :
    l.through step (as ++ bs) = (l.through step as).through step bs := by
  induction as generalizing l with
  | nil => rfl
  | cons a as ih =>
    by_cases h : l.failed.isSome
    · simp [through_of_failed h]
    · simp [through, h, ih]

/-- A list whose items stand for lists may be gone through piece by piece. -/
theorem through_flatMap {step : Listing → β → Listing} {whole : Listing → α → Listing}
    {pieces : α → List β}
    (h : ∀ l a, ¬ l.failed.isSome → whole l a = l.through step (pieces a))
    (l : Listing) (items : List α) :
    l.through whole items = l.through step (items.flatMap pieces) := by
  induction items generalizing l with
  | nil => rfl
  | cons a items ih =>
    by_cases hl : l.failed.isSome
    · simp [through_of_failed hl]
    · rw [List.flatMap_cons, through_append, ← h l a hl, ← ih]
      simp [through, hl]

/-- What comes after a stop is not gone through. -/
theorem through_untilStop (l : Listing) (events : List Event) :
    l.through add (Event.untilStop events) = l.through add events := by
  induction events generalizing l with
  | nil => rfl
  | cons e rest ih =>
    by_cases h : l.failed.isSome
    · simp [through_of_failed h]
    · cases e with
      | make owner spec => simp [Event.untilStop, through, h, ih]
      | stop message =>
        have stopped : (l.add (.stop message)).failed.isSome := rfl
        simp [Event.untilStop, through, h, through_of_failed stopped]

end Listing

namespace Registry

/-- Lists the cases of given events after those that are listed already. -/
def listEvents (r : Registry) (events : List Event) : Listing :=
  Listing.through .add { registry := r } events

/-- Lists the cases of a class, down to `levels` classes below each other.  Nothing is
    walked any more once something has failed. -/
def listWithin (r : Registry) : (levels : Nat) → Listing → TargetClass → Listing
  | 0, l, _ => l
  | levels + 1, l, c =>
    let walk (l : Listing) := l.through (r.listWithin levels) (r.subclassesOf c)
    match c.emitter? with
    | some (owner, emissions) =>
      l.through (fun l emission =>
        match emission with
        | .make spec => l.add (.make owner spec)
        | .walk => walk l
        | .stop message => l.add (.stop message)) emissions
    | none => walk l

/-- Lists the cases of a class. -/
def list (r : Registry) (c : TargetClass) : Listing := r.listWithin r.levels { registry := r } c

theorem listWithin_eq (r : Registry) (levels : Nat) (l : Listing) (c : TargetClass) :
    r.listWithin levels l c = l.through .add (r.eventsWithin levels c) := by
  induction levels generalizing l c with
  | zero => rfl
  | succ levels ih =>
    have walk (l : Listing) : l.through (r.listWithin levels) (r.subclassesOf c) =
        l.through .add ((r.subclassesOf c).flatMap (r.eventsWithin levels)) :=
      Listing.through_flatMap (fun l c _ => ih l c) l _
    unfold listWithin eventsWithin
    split
    · next owner emissions _ =>
      refine Listing.through_flatMap (fun l emission h => ?_) l emissions
      cases emission with
      | make spec => simp [Listing.through, h]
      | walk => exact walk l
      | stop message => simp [Listing.through, h]
    · exact walk l

/-- The listing of a class is that of its events. -/
theorem list_eq_listEvents (r : Registry) (c : TargetClass) :
    r.list c = r.listEvents (r.events c) := by
  simp [list, listEvents, events, listWithin_eq, Listing.through_untilStop]

end Registry

end CaseGen
