import CaseGen.Failure
import CaseGen.Target.Class
import CaseGen.Text.Order

/-! # Registered classes and their counters

    A class is listed under its parent once it is registered.  A class is
    registered at most once, and no two classes under one parent have the
    same name.  Besides, the registry counts the instances of each class.

    * `Registry.register`     — adds a class, or says why it cannot be added
    * `Registry.subclassesOf` — the classes under a parent, by name
    * `Registry.construct`    — makes the next instance of a class -/

namespace CaseGen

/-- A class under the name it is registered by. -/
structure Registration where
  name : String
  target : TargetClass
  deriving DecidableEq, Repr

/-- The registered classes below each parent in the order of their names, all registered
    classes, and the number of instances of each class since the last reset. -/
structure Registry where
  siblings : List (Option TargetClass × List Registration) := []
  registered : List TargetClass := []
  counts : List (TargetClass × Nat) := []

namespace Registry

/-! ## Section 1: Registrations -/

/-- The registrations of classes with this parent, in the order of their names. -/
def childrenOf (r : Registry) (parent : Option TargetClass) : List Registration :=
  (r.siblings.lookup parent).getD []

/-- The registry with one more registration, which is sorted in among its siblings. -/
def add (r : Registry) (e : Registration) : Registry :=
  let parent := e.target.parent?
  { r with
    siblings := (parent, Text.sortBy Registration.name (r.childrenOf parent ++ [e])) ::
      r.siblings.filter fun s => s.1 ≠ parent
    registered := e.target :: r.registered }

/-- Adds a class under a name, which is its own unless another one is given.  A class that
    is there already is refused first, then a name that a sibling has. -/
def register (r : Registry) (c : TargetClass) (name : String := c.name) :
    Except Failure Registry :=
  if c ∈ r.registered then .error (.alreadyRegistered name)
  else if ∃ e ∈ r.childrenOf c.parent?, e.name = name then .error (.duplicateName name)
  else .ok (r.add ⟨name, c⟩)

/-- Adds classes under their own names, one after the other. -/
def registerAll (r : Registry) (l : List TargetClass) : Except Failure Registry :=
  l.foldlM (fun r c => r.register c) r

/-- The registered classes right below a class, in the order of their names. -/
def subclassesOf (r : Registry) (parent : TargetClass) : List TargetClass :=
  (r.childrenOf (some parent)).map Registration.target

/-! ## Section 2: Counters -/

/-- The number of instances of a class since the last reset. -/
def count (r : Registry) (c : TargetClass) : Nat := (r.counts.lookup c).getD 0

/-- Counts one more instance of a class. -/
def bump (r : Registry) (c : TargetClass) : Registry :=
  { r with counts := (c, r.count c + 1) :: r.counts.filter fun e => e.1 ≠ c }

/-- The next number of a class, counted from one. -/
def nextCount (r : Registry) (c : TargetClass) : Nat × Registry := (r.count c + 1, r.bump c)

/-- Starts all counts again. -/
def resetCounters (r : Registry) : Registry := { r with counts := [] }

/-- Makes the next instance of a class. -/
def construct (r : Registry) (c : TargetClass) (spec : CaseSpec) : Instance × Registry :=
  (⟨c, r.count c + 1, c.specOf spec⟩, r.bump c)

end Registry

end CaseGen
