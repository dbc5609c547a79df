import TurtleCurves.Turtle

/-!
This module contains the moves of a turtle as data, for curves whose drawing rules are given and not
computed.
-/

namespace TurtleCurves

inductive Move
  | jump (p : Point Float)
  | face (angle : Float)
  | turn (angle : Float)
  | turnDegrees (degrees : Float)
  | forward (distance : Float)
deriving Repr, DecidableEq, Inhabited

namespace Move

def apply (t : Turtle) : Move → Turtle
  | jump p => t.jumpTo p
  | face angle => t.face angle
  | turn angle => t.turn angle
  | turnDegrees degrees => t.turnDegrees degrees
  | forward distance => t.forward distance

end Move

def Turtle.run (t : Turtle) (moves : List Move) : Turtle :=
  moves.foldl Move.apply t

end TurtleCurves
