import TurtleCurves.Curve.Basic

/-!
This module contains patterns: families of curves in which every letter stands for a step forward, a turn
by whole degrees, or nothing, and in which the step shrinks by a fixed factor with each iteration.
-/

namespace TurtleCurves

inductive Motion
  | forward
  | turn (degrees : Int)
  | rest
deriving Repr, DecidableEq, Inhabited

structure Pattern where
  kind : String
  name : String
  grammar : Grammar
  motion? : Symbol → Option Motion
  /-- How many steps of the next depth make up one of this depth. -/
  factor : Float
  start : Point Float
  heading : Nat → Result Float
  describe : Nat → String

namespace Pattern

def double (n : Nat) : Result Float :=
  match (Number.whole n).toFloat? with
  | some x => .ok x
  | none => .error .overflow

def step (p : Pattern) (iterations : Nat) : Result Float := do
  let scale := p.factor.pow (← double iterations)
  if scale.isInf then .error .overflow else return 1 / scale

def place (p : Pattern) (iterations : Nat) (t : Turtle) : Result Turtle := do
  return (t.jumpTo p.start).face (← p.heading iterations)

def draw (p : Pattern) (iterations : Nat) (s : Symbol) (t : Turtle) : Result Turtle :=
  match p.motion? s with
  | some .forward => do return t.forward (← p.step iterations)
  | some (.turn degrees) => .ok (t.turnDegrees (Float.ofInt degrees))
  | some .rest => .ok t
  | none => .error (.undrawnSymbol s)

def definition (p : Pattern) : Definition where
  kind := p.kind
  name := p.name
  grammar := p.grammar
  refusal? _ := none
  depth iterations := .int iterations
  place := p.place
  draw := p.draw
  describe := p.describe
  step? := some p.step

end Pattern
end TurtleCurves
