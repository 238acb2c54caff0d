/-! # Test cases

    A test case is drafted field by field and becomes a record once it is
    complete.

    * `Draft`   — a case in the making, whose description and function may be absent
    * `Record`  — a complete case, ready to be written -/

namespace CaseGen

/-- A test case in the making. -/
structure Draft where
  description : Option String := none
  function : Option String := none
  arguments : List String := []
  dependencies : List String := []
  comments : List String := []
  deriving DecidableEq, Repr

/-- A complete test case. -/
structure Record where
  description : String
  function : String
  arguments : List String
  dependencies : List String
  comments : List String
  deriving DecidableEq, Repr

namespace Draft

/-- A draft with a description, a function and its arguments. -/
def ofCall (description function : String) (arguments : List String) : Draft where
  description := some description
  function := some function
  arguments := arguments

/-- One change to a draft. -/
inductive Edit where
  | setDescription (s : String)
  | setFunction (s : String)
  | setArguments (l : List String)
  | setDependencies (l : List String)
  | addComments (l : List String)
  deriving DecidableEq, Repr

/-- Sets replace the whole field; comments are added after those already there. -/
def edit (d : Draft) : Edit → Draft
  | .setDescription s => { d with description := some s }
  | .setFunction s => { d with function := some s }
  | .setArguments l => { d with arguments := l }
  | .setDependencies l => { d with dependencies := l }
  | .addComments l => { d with comments := d.comments ++ l }

end Draft

namespace Record

/-- The record as a draft, every field being set. -/
def toDraft (r : Record) : Draft where
  description := some r.description
  function := some r.function
  arguments := r.arguments
  dependencies := r.dependencies
  comments := r.comments

end Record

end CaseGen
