import TurtleCurves.Turtle

/-!
This module contains turtles over any arithmetic. On doubles they are the turtles that draw; over numbers
that do not round they show what is meant to be drawn.
-/

namespace TurtleCurves

/-- The arithmetic that a turtle needs besides the four operations. -/
class Trigonometry (α : Type) where
  ofInt : Int → α
  sqrt : α → α
  power : α → Nat → α
  halfTurn : α
  cos : α → α
  sin : α → α
  reduce : α → α

instance : Trigonometry Float where
  ofInt := Float.ofInt
  sqrt := Float.sqrt
  power x n := x.pow (Float.ofInt n)
  halfTurn := Angle.halfTurn
  cos := Float.cos
  sin := Float.sin
  reduce := Angle.reduce

structure Pen (α : Type) where
  path : Path α
  position : Point α
  heading : α

namespace Pen

open Trigonometry

section Moves

variable {α : Type} [Add α] [Mul α] [Div α] [Trigonometry α]

def origin : Point α := ⟨ofInt 0, ofInt 0⟩

def fresh : Pen α :=
  ⟨Path.empty.beginAt origin, origin, ofInt 0⟩

def jumpTo (pen : Pen α) (p : Point α) : Pen α :=
  { pen with path := pen.path.beginAt p, position := p }

def face (pen : Pen α) (angle : α) : Pen α :=
  { pen with heading := reduce angle }

def turnDegrees (pen : Pen α) (degrees : Int) : Pen α :=
  { pen with heading := reduce (pen.heading + ofInt degrees * (halfTurn / ofInt 180)) }

def ahead (pen : Pen α) (distance : α) : Point α :=
  ⟨pen.position.x + distance * cos pen.heading, pen.position.y + distance * sin pen.heading⟩

def forward (pen : Pen α) (distance : α) : Pen α :=
  { pen with path := pen.path.extendTo (pen.ahead distance), position := pen.ahead distance }

end Moves

def toTurtle (pen : Pen Float) : Turtle :=
  ⟨pen.path, pen.position, pen.heading⟩

theorem toTurtle_fresh : (fresh : Pen Float).toTurtle = Turtle.fresh := rfl

theorem toTurtle_jumpTo (pen : Pen Float) (p : Point Float) :
    (pen.jumpTo p).toTurtle = pen.toTurtle.jumpTo p := rfl

theorem toTurtle_face (pen : Pen Float) (angle : Float) :
    (pen.face angle).toTurtle = pen.toTurtle.face angle := rfl

theorem toTurtle_turnDegrees (pen : Pen Float) (degrees : Int) :
    (pen.turnDegrees degrees).toTurtle = pen.toTurtle.turnDegrees (Float.ofInt degrees) := rfl

theorem toTurtle_forward (pen : Pen Float) (distance : Float) :
    (pen.forward distance).toTurtle = pen.toTurtle.forward distance := rfl

end Pen
end TurtleCurves
