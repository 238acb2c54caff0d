import CaseGen.Target.Generator

/-! # Sessions of several generators

    Any number of generators may be at work on one registry, while classes
    are registered, instances made and counters reset in between.  A
    session is a run of such operations.

    * `Session.Action` — one operation
    * `Session.Reply`  — what it answers
    * `Session.step`, `Session.run` — one operation, and several in order -/

namespace CaseGen.Target

/-- A registry and the generators at work on it, by key. -/
structure Session where
  registry : Registry := {}
  generators : List (String × Generator) := []

namespace Session

/-- One operation of a session. -/
inductive Action where
  /-- Registers a class under a name, its own unless another one is given. -/
  | register (c : TargetClass) (name : String := c.name)
  /-- Asks for the registered classes below a class. -/
  | subclasses (c : TargetClass)
  /-- Takes the next number of a class without making an instance. -/
  | nextCount (c : TargetClass)
  /-- Starts all counts again. -/
  | resetCounters
  /-- Makes an instance directly. -/
  | construct (c : TargetClass) (spec : CaseSpec)
  /-- Lists the lines of the cases of a class. -/
  | list (c : TargetClass)
  /-- Lists the lines of the cases of given events. -/
  | listEvents (l : List Event)
  /-- Keeps a generator under a key. -/
  | start (key : String) (g : Generator)
  /-- Pulls the generator of a key. -/
  | pull (key : String)
  /-- Ends the generator of a key. -/
  | stop (key : String)

/-- What an operation answers. -/
inductive Reply where
  | done
  | refused (f : Failure)
  | classes (l : List TargetClass)
  | number (n : Nat)
  | made (i : Instance)
  | listed (l : Listing)
  | pulled (n : Generator.Next)

/-- The generator of a key; one that was never started has no work. -/
def generator (s : Session) (key : String) : Generator := (s.generators.lookup key).getD []

/-- Keeps a generator under a key, in place of the one before. -/
def keep (s : Session) (key : String) (g : Generator) : Session :=
  { s with generators := (key, g) :: s.generators.filter fun e => e.1 ≠ key }

/-- Carries out an operation. -/
def step (s : Session) : Action → Reply × Session
  | .register c name =>
    match s.registry.register c name with
    | .error f => (.refused f, s)
    | .ok registry => (.done, { s with registry })
  | .subclasses c => (.classes (s.registry.subclassesOf c), s)
  | .nextCount c =>
    let (n, registry) := s.registry.nextCount c
    (.number n, { s with registry })
  | .resetCounters => (.done, { s with registry := s.registry.resetCounters })
  | .construct c spec =>
    let (i, registry) := s.registry.construct c spec
    (.made i, { s with registry })
  | .list c =>
    let l := s.registry.list c
    (.listed l, { s with registry := l.registry })
  | .listEvents events =>
    let l := s.registry.listEvents events
    (.listed l, { s with registry := l.registry })
  | .start key g => (.done, s.keep key g)
  | .pull key =>
    let (n, g, registry) := (s.generator key).next s.registry
    (.pulled n, { s with registry }.keep key g)
  | .stop key => (.done, s.keep key [])

/-- Carries out operations in order. -/
def run (s : Session) : List Action → List Reply × Session
  | [] => ([], s)
  | a :: rest =>
    let (reply, s) := s.step a
    let (replies, s) := s.run rest
    (reply :: replies, s)

end Session

end CaseGen.Target
