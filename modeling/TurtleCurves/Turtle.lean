import TurtleCurves.Path

/-!
This module contains the turtle: a position and a heading that draw a path by moving forward. Headings
are in radians, counter-clockwise from the first axis, and reduced to one full turn after every change.
-/

namespace TurtleCurves

namespace Angle

def halfTurn : Float := 3.141592653589793

def fullTurn : Float := 2 * halfTurn

/--
The remainder of a division whose sign is that of the divisor. An exact remainder of the other sign is
moved over by one divisor, which rounds and may reach the divisor itself.
-/
def modulo (a b : Float) : Float :=
  match Binary.view a, Binary.view b with
  | .finite x, .finite y =>
    let rest := x.remainder y
    if rest.mantissa = 0 then (Binary.mk y.negative 0 0).toFloat
    else if rest.negative = y.negative then rest.toFloat
    else rest.toFloat + b
  | _, _ => 0.0 / 0.0

def reduce (angle : Float) : Float :=
  modulo angle fullTurn

def ofDegrees (degrees : Float) : Float :=
  degrees * (halfTurn / 180)

end Angle

structure Turtle where
  path : Path Float
  position : Point Float
  heading : Float
deriving Repr, DecidableEq, Inhabited

namespace Turtle

def origin : Point Float := ⟨0, 0⟩

def onPath (path : Path Float) : Turtle :=
  ⟨path.beginAt origin, origin, 0⟩

def fresh : Turtle :=
  onPath Path.empty

def jumpTo (t : Turtle) (p : Point Float) : Turtle :=
  { t with path := t.path.beginAt p, position := p }

def face (t : Turtle) (angle : Float) : Turtle :=
  { t with heading := Angle.reduce angle }

def turn (t : Turtle) (angle : Float) : Turtle :=
  { t with heading := Angle.reduce (t.heading + angle) }

def turnDegrees (t : Turtle) (degrees : Float) : Turtle :=
  t.turn (Angle.ofDegrees degrees)

def ahead (t : Turtle) (distance : Float) : Point Float :=
  ⟨t.position.x + distance * t.heading.cos, t.position.y + distance * t.heading.sin⟩

def forward (t : Turtle) (distance : Float) : Turtle :=
  let p := t.ahead distance
  { t with path := t.path.extendTo p, position := p }

end Turtle
end TurtleCurves
