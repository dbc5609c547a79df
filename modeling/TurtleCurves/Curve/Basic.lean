import TurtleCurves.Count
import TurtleCurves.Grammar.Growth
import TurtleCurves.Turtle

/-!
This module contains curves. A definition joins a grammar with drawing rules and leaves the iteration
count open; a curve is a definition with a count that it accepts. The grammar of a curve is closed,
because nothing else can be made.
-/

namespace TurtleCurves

structure Definition where
  kind : String
  name : String
  grammar : Grammar
  refusal? : Nat → Option Refusal
  /-- The depth to which a curve asks to be expanded. -/
  depth : Nat → Value
  place : Nat → Turtle → Result Turtle
  draw : Nat → Symbol → Turtle → Result Turtle
  describe : Nat → String
  step? : Option (Nat → Result Float)

structure Curve where
  definition : Definition
  iterations : Nat
  closed : definition.grammar.Closed

namespace Definition

def obstacle? (d : Definition) (iterations : Nat) : Option Refusal :=
  (d.refusal? iterations).or (d.grammar.fault?.map .grammar)

def curve (d : Definition) (iterations : Value) : Result Curve := do
  let count ← Count.forCurve iterations
  match h : d.obstacle? count with
  | some refusal => .error (.refused refusal)
  | none =>
    have closed : d.grammar.Closed := by
      rw [obstacle?, Option.or_eq_none_iff, Option.map_eq_none_iff] at h
      exact d.grammar.fault?_eq_none_iff.1 h.2
    return ⟨d, count, closed⟩

end Definition

namespace Curve

def name (c : Curve) : String :=
  c.definition.name

def grammar (c : Curve) : Grammar :=
  c.definition.grammar

def depth (c : Curve) : Value :=
  c.definition.depth c.iterations

def place (c : Curve) (t : Turtle) : Result Turtle :=
  c.definition.place c.iterations t

def draw (c : Curve) (s : Symbol) (t : Turtle) : Result Turtle :=
  c.definition.draw c.iterations s t

def description (c : Curve) : String :=
  c.definition.describe c.iterations

def step (c : Curve) : Result Float :=
  match c.definition.step? with
  | some step => step c.iterations
  | none => .error .missingOperation

def imageOf (c : Curve) (s : Symbol) : Result (List Symbol) :=
  match c.grammar.rule? s with
  | some image => .ok image
  | none => .error .noRule

def sequence (c : Curve) (passes : Nat) : Result (List Symbol) :=
  match c.grammar.expand? passes with
  | some word => .ok word
  | none => .error .noRule

def expand (c : Curve) (passes : Value) : Result (List Symbol) := do
  c.sequence (← Count.forCall passes)

def predictedLength (c : Curve) (passes : Value) : Result Nat := do
  return c.grammar.predictedLength (← Count.forCall passes)

def branchingFactor (c : Curve) : Result Nat :=
  match c.grammar.branchingFactor? with
  | some length => .ok length
  | none => .error .badValue

def parameters (c : Curve) : Fields :=
  [("name", .text c.name), ("iterations", .int c.iterations)]

def shown (c : Curve) : String :=
  c.definition.kind ++ "(iterations=" ++ toString c.iterations ++ ")"

end Curve

/--
A family of curves as it is registered: whatever makes curves. Making one and describing it can fail in any
way, not only with a refusal.
-/
structure Family where
  kind : String
  name : String
  make : Value → Result Curve
  describe : Curve → Result String
  count_of_make : ∀ {value c}, make value = .ok c → value = .int c.iterations

theorem Definition.count_of_curve {d : Definition} {value : Value} {c : Curve}
    (h : d.curve value = .ok c) : value = .int c.iterations := by
  unfold curve at h
  cases hcount : Count.forCurve value with
  | error fault =>
    rw [hcount] at h
    cases h
  | ok count =>
    rw [hcount] at h
    simp only [bind, Except.bind] at h
    split at h
    . cases h
    . cases h
      exact Count.forCurve_eq_ok_iff.1 hcount

def Definition.family (d : Definition) : Family where
  kind := d.kind
  name := d.name
  make := d.curve
  describe c := .ok c.description
  count_of_make := count_of_curve

end TurtleCurves
