/-!
This module contains the phases of a drawing engine and the transitions between them.
-/

namespace TurtleCurves

inductive Phase
  | idle
  | expanding
  | interpreting
  | done
deriving Repr, DecidableEq, Inhabited

namespace Phase

def all : List Phase :=
  [idle, expanding, interpreting, done]

def next? : Phase → Option Phase
  | idle => some expanding
  | expanding => some interpreting
  | interpreting => some done
  | done => none

def name : Phase → String
  | idle => "idle"
  | expanding => "expanding"
  | interpreting => "interpreting"
  | done => "done"

def ofName? (name : String) : Option Phase :=
  all.find? fun phase => phase.name = name

end Phase
end TurtleCurves
