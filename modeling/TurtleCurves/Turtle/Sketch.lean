import TurtleCurves.Turtle.Move

/-!
This module contains sketches: a path that is drawn on both directly and through at most one turtle,
which may instead draw on a path of its own.
-/

namespace TurtleCurves

structure Sketch where
  path : Path Float := Path.empty
  turtle : Option Turtle := none
  /-- Whether the turtle draws on the sketch's path. -/
  shared : Bool := true
deriving Repr

namespace Sketch

/-- Keeps the turtle's path the sketch's path if they are shared. -/
def withTurtle (s : Sketch) (t : Turtle) : Sketch :=
  { s with path := if s.shared then t.path else s.path, turtle := some t }

def withPath (s : Sketch) (path : Path Float) : Sketch :=
  let turtle := s.turtle.map fun t => if s.shared then { t with path := path } else t
  { s with path := path, turtle := turtle }

def takeTurtle (s : Sketch) : Sketch :=
  { s with shared := true }.withTurtle (.onPath s.path)

def takeFreeTurtle (s : Sketch) : Sketch :=
  { s with shared := false }.withTurtle .fresh

def move (s : Sketch) (m : Move) : Result Sketch :=
  match s.turtle with
  | some t => .ok (s.withTurtle (m.apply t))
  | none => .error .missingOperation

def beginAt (s : Sketch) (p : Point Float) : Sketch :=
  s.withPath (s.path.beginAt p)

def extendTo (s : Sketch) (p : Point Float) : Result Sketch :=
  (s.path.tryExtendTo p).map s.withPath

end Sketch
end TurtleCurves
