import CaseGen.TestCase.Basic

/-! # Target classes

    A target class describes one family of test cases for a function.
    Classes form a tree below `base`.  A class may give a title, a function
    and a list of emissions; what it leaves out it takes from its nearest
    ancestor that gives it.  A group only gathers the classes below it, so
    its own instances have no detail and no arguments.

    * `CaseSpec`    — what distinguishes a case from others of its class
    * `Emission`    — one step of a class that lists its own cases
    * `TargetClass` — a class with the chain of its ancestors
    * `Instance`    — a numbered case of a class -/

namespace CaseGen

/-! ## Section 1: Classes -/

/-- What distinguishes one case from the others of its class. -/
structure CaseSpec where
  detail : String := ""
  arguments : List String := []
  dependencies : List String := []
  deriving DecidableEq, Repr

/-- One step of a class that lists its own cases. -/
inductive Emission where
  /-- Makes an instance of the class that the list was given to. -/
  | make (spec : CaseSpec)
  /-- Walks the registered subclasses of the class that was asked for its cases. -/
  | walk
  /-- Gives up with a message. -/
  | stop (message : String)
  deriving DecidableEq, Repr

/-- What a class adds to its parent. -/
structure Definition where
  name : String
  title : Option String := none
  function : Option String := none
  emissions : Option (List Emission) := none
  /-- The class only gathers the classes below it. -/
  isGroup : Bool := false
  deriving DecidableEq, Repr

/-- A class of targets.  The number tells two classes apart that are defined alike. -/
inductive TargetClass where
  | base
  | sub (id : Nat) (parent : TargetClass) (definition : Definition)
  deriving DecidableEq, Repr

namespace TargetClass

/-- The name of the class. -/
def name : TargetClass → String
  | base => "BaseTarget"
  | sub _ _ d => d.name

/-- The class that this one extends; the base extends none. -/
def parent? : TargetClass → Option TargetClass
  | base => none
  | sub _ p _ => some p

/-- The number of classes above this one. -/
def depth : TargetClass → Nat
  | base => 0
  | sub _ p _ => p.depth + 1

/-- The class only gathers the classes below it; the base is such a class. -/
def isGroup : TargetClass → Bool
  | base => true
  | sub _ _ d => d.isGroup

/-- What distinguishes an instance of the class that is given a specification: nothing if
    the class is a group. -/
def specOf (c : TargetClass) (spec : CaseSpec) : CaseSpec := if c.isGroup then {} else spec

/-- The title that the class gives or takes from its ancestors. -/
def title? : TargetClass → Option String
  | base => none
  | sub _ p d => d.title.or p.title?

/-- The function that the class gives or takes from its ancestors. -/
def function? : TargetClass → Option String
  | base => none
  | sub _ p d => d.function.or p.function?

/-- The nearest class, from this one upwards, that lists cases of its own, with the list. -/
def emitter? : TargetClass → Option (TargetClass × List Emission)
  | base => none
  | sub id p d =>
    match d.emissions with
    | some l => some (sub id p d, l)
    | none => p.emitter?

end TargetClass

/-! ## Section 2: Instances -/

/-- A case of a class, with its number among the instances of the class. -/
structure Instance where
  target : TargetClass
  number : Nat
  spec : CaseSpec
  deriving DecidableEq, Repr

namespace Instance

/-- Title, number and detail; a class without a title shows `undefined` in its place. -/
def description (i : Instance) : String :=
  i.target.title?.getD "undefined" ++ " #" ++ toString i.number ++ " " ++ i.spec.detail

/-- The test case of an instance. -/
def draft (i : Instance) : Draft where
  description := some i.description
  function := i.target.function?
  arguments := i.spec.arguments
  dependencies := i.spec.dependencies

end Instance

end CaseGen
