import CaseGen.Target.Walk
import CaseGen.TestCase.Lines
import CaseGen.Workspace

/-! # Producers of test cases

    A producer of test cases is a list of steps.  A lazy producer takes
    its steps one by one as its cases are asked for; an eager one takes all
    of them when it is called and hands over the drafts.

    * `Step`              — one step of a producer
    * `Workspace.perform` — what a step does, and the draft it yields
    * `Production.call`   — the steps left to take once the producer is called -/

namespace CaseGen

/-! ## Section 1: Steps -/

/-- One step of a producer. -/
inductive Step where
  /-- Yields a test case. -/
  | yield (d : Draft)
  /-- Makes the next instance of a class and yields its test case. -/
  | construct (c : TargetClass) (spec : CaseSpec)
  /-- Gives up. -/
  | fail (f : Failure)
  /-- Writes a file, with the directories it needs. -/
  | touch (path text : String)
  /-- Leaves the listing of the tree in the trace. -/
  | peek
  /-- Leaves a text in the trace. -/
  | note (text : String)

namespace Workspace

/-- Takes a step.  Some steps yield a draft. -/
def perform (w : Workspace) : Step → Except Failure (Option Draft) × Workspace
  | .yield d => (.ok (some d), w)
  | .construct c spec =>
    let (i, registry) := w.registry.construct c spec
    (.ok (some i.draft), { w with registry })
  | .fail f => (.error f, w)
  | .touch path text =>
    match w.touch path text with
    | (.error f, w) => (.error f, w)
    | (.ok (), w) => (.ok none, w)
  | .peek => (.ok none, w.leave (.listing w.tree.listing))
  | .note text => (.ok none, w.leave (.text text))

/-- Takes all steps and collects the drafts. -/
def performAll (w : Workspace) : List Step → Except Failure (List Draft) × Workspace
  | [] => (.ok [], w)
  | s :: rest =>
    match w.perform s with
    | (.error f, w) => (.error f, w)
    | (.ok d, w) =>
      match w.performAll rest with
      | (.error f, w) => (.error f, w)
      | (.ok ds, w) => (.ok (d.toList ++ ds), w)

end Workspace

/-! ## Section 2: Productions -/

/-- What a producer does when it is called. -/
structure Production where
  steps : List Step
  eager : Bool := false

namespace Production

/-- Calls the producer: the steps left to take. -/
def call (p : Production) (w : Workspace) : Except Failure (List Step) × Workspace :=
  if p.eager then
    match w.performAll p.steps with
    | (.error f, w) => (.error f, w)
    | (.ok ds, w) => (.ok (ds.map .yield), w)
  else (.ok p.steps, w)

/-- The production that makes the instances of listed events. -/
def ofEvents (l : List Event) : Production where
  steps := l.map fun
    | .make owner spec => .construct owner spec
    | .stop message => .fail (.stopped message)

end Production

end CaseGen
