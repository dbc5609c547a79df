import TurtleCurves.Path

/-!
This module contains measurements of drawn paths: the longer side of the bounding box, and whether a path
ends where it begins.
-/

namespace TurtleCurves
namespace Path

def extent (path : Path Float) : Result Float := do
  let box ← path.bounds
  return if box.width < box.height then box.height else box.width

/-- The distance of two points; it is infinite as soon as they are infinitely apart on one axis. -/
def distance (p q : Point Float) : Float :=
  match Binary.view (p.x - q.x), Binary.view (p.y - q.y) with
  | .infinite _, _ | _, .infinite _ => 1.0 / 0.0
  | .undefined, _ | _, .undefined => 0.0 / 0.0
  | .finite dx, .finite dy => dx.hypotenuse dy

def closeTolerance : Float := 1e-9

def isClosed (path : Path Float) (tolerance : Float) : Bool :=
  match path.start?, path.end? with
  | some p, some q => distance p q ≤ tolerance
  | _, _ => false

end Path
end TurtleCurves
