import CaseGen.Target.Walk

/-! # The cases of a class, one at a time

    A generator lists the cases of a class one at a time.  Between two
    pulls it is a stack of unfinished work: emissions still to be followed,
    and subclasses still to be visited.  The subclasses of a walk are read
    from the registry when the walk begins, so a class registered later is
    not part of it.

    * `Frame`          — a piece of unfinished work
    * `Pull`           — an instance to be made with the work left over, a stop, or the end
    * `Generator.pull` — goes on to the next instance
    * `Generator.next` — makes that instance -/

namespace CaseGen

/-- A piece of unfinished work. -/
inductive Frame where
  /-- A class that has not been visited yet. -/
  | visit (c : TargetClass)
  /-- The rest of a list of emissions that `owner` gave and `receiver` follows. -/
  | emit (owner receiver : TargetClass) (rest : List Emission)
  /-- The rest of the subclasses of a walk. -/
  | walk (rest : List TargetClass)
  deriving DecidableEq, Repr

/-- A generator is the work it has left, what comes first on top.  An ended one has none. -/
abbrev Generator := List Frame

/-- What a pull leads to. -/
inductive Pull where
  /-- An instance of `owner` is due; `rest` is the work after it. -/
  | make (owner : TargetClass) (spec : CaseSpec) (rest : Generator)
  /-- The listing is given up. -/
  | stop (message : String)
  /-- No work is left. -/
  | done
  deriving DecidableEq, Repr

/-! ## Section 1: One pull -/

namespace Pull

/-- Puts `later` under the work that is left over. -/
def above (p : Pull) (later : Generator) : Pull :=
  match p with
  | make owner spec rest => make owner spec (rest ++ later)
  | stop message => stop message
  | done => done

/-- Visits classes one after another until one of them has a case. -/
def ofWalk (visit : TargetClass → Pull) : List TargetClass → Pull
  | [] => done
  | c :: rest =>
    match visit c with
    | done => ofWalk visit rest
    | p => p.above [.walk rest]

/-- Follows emissions until one of them has a case. -/
def ofEmissions (walk : Pull) (owner receiver : TargetClass) : List Emission → Pull
  | [] => done
  | .make spec :: rest => make owner spec [.emit owner receiver rest]
  | .walk :: rest =>
    match walk with
    | done => ofEmissions walk owner receiver rest
    | p => p.above [.emit owner receiver rest]
  | .stop message :: _ => stop message

end Pull

namespace Registry

/-- Visits a class, down to `levels` classes below each other. -/
def visitWithin (r : Registry) : (levels : Nat) → TargetClass → Pull
  | 0, _ => .done
  | levels + 1, c =>
    let walk := Pull.ofWalk (r.visitWithin levels) (r.subclassesOf c)
    match c.emitter? with
    | some (owner, l) => Pull.ofEmissions walk owner c l
    | none => walk

/-- Visits a class. -/
def visit (r : Registry) (c : TargetClass) : Pull := r.visitWithin r.levels c

/-- Takes up a piece of unfinished work. -/
def resume (r : Registry) : Frame → Pull
  | .visit c => r.visit c
  | .emit owner receiver rest =>
    Pull.ofEmissions (Pull.ofWalk r.visit (r.subclassesOf receiver)) owner receiver rest
  | .walk rest => Pull.ofWalk r.visit rest

end Registry

namespace Generator

/-- A generator of the cases of a class; nothing is done yet. -/
def start (c : TargetClass) : Generator := [.visit c]

/-- A generator that follows a list of emissions of a class. -/
def ofEmissions (c : TargetClass) (l : List Emission) : Generator := [.emit c c l]

/-- Goes on to the next instance. -/
def pull (r : Registry) : Generator → Pull
  | [] => .done
  | frame :: rest =>
    match r.resume frame with
    | .done => pull r rest
    | p => p.above rest

/-! ## Section 2: Making instances -/

/-- What a pull gives to the one who pulls. -/
inductive Next where
  | made (i : Instance)
  | stopped (message : String)
  | done
  deriving DecidableEq, Repr

/-- Pulls once and makes the instance.  A stop or the end leaves no work. -/
def next (r : Registry) (g : Generator) : Next × Generator × Registry :=
  match g.pull r with
  | .make owner spec rest =>
    let (i, r) := r.construct owner spec
    (.made i, rest, r)
  | .stop message => (.stopped message, [], r)
  | .done => (.done, [], r)

end Generator

end CaseGen
