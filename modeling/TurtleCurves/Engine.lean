import TurtleCurves.Curve.Basic

/-!
This module contains the drawing engine. A render expands a curve and lets a fresh turtle draw the
expansion, symbol by symbol, while a watcher looks on and may give up. The engine remembers its phase and
the length of the last expansion; a render that is refused at once leaves both as they were.
-/

namespace TurtleCurves

structure Engine where
  phase : Phase := .idle
  lastLength : Nat := 0
deriving Repr, DecidableEq, Inhabited

inductive Subject
  | curve (c : Curve)
  /-- Something without a grammar or without drawing rules. -/
  | other

/-- Looks on as symbols are drawn and keeps notes; a fault ends the render. -/
structure Watcher (ω : Type) where
  notice : ω → Phase → Symbol → Turtle → ω × Option Fault
  /-- The turtle that goes on with the drawing, which is another one only if the watcher meddles. -/
  handBack : ω → Phase → Symbol → Turtle → Turtle := fun _ _ _ t => t

def Watcher.idle : Watcher Unit where
  notice notes _ _ _ := (notes, none)

structure Outcome (ω : Type) where
  engine : Engine
  notes : ω
  result : Result (Path Float)

namespace Engine

variable {ω : Type}

def enter (e : Engine) (phase : Phase) : Result Engine :=
  if e.phase.next? = some phase then .ok { e with phase := phase }
  else .error (.transition e.phase phase)

def interpret (c : Curve) (watcher : Watcher ω) (phase : Phase) :
    ω → Turtle → List Symbol → ω × Result Turtle
  | notes, t, [] => (notes, .ok t)
  | notes, t, s :: rest =>
    match c.draw s t with
    | .error fault => (notes, .error fault)
    | .ok t =>
      match watcher.notice notes phase s t with
      | (noted, some fault) => (noted, .error fault)
      | (noted, none) => interpret c watcher phase noted (watcher.handBack notes phase s t) rest

def drawSequence (e : Engine) (watcher : Watcher ω) (notes : ω) (c : Curve) (word : List Symbol) :
    Outcome ω :=
  match e.enter .interpreting with
  | .error fault => ⟨e, notes, .error fault⟩
  | .ok e =>
    match c.place .fresh with
    | .error fault => ⟨e, notes, .error fault⟩
    | .ok t =>
      match interpret c watcher e.phase notes t word with
      | (notes, .error fault) => ⟨e, notes, .error fault⟩
      | (notes, .ok t) =>
        match e.enter .done with
        | .error fault => ⟨e, notes, .error fault⟩
        | .ok e => ⟨e, notes, .ok t.path⟩

def render (e : Engine) (watcher : Watcher ω) (notes : ω) (subject : Subject) : Outcome ω :=
  match subject with
  | .other => ⟨e, notes, .error .notDrawable⟩
  | .curve c =>
    match Count.forCurve c.depth with
    | .error fault => ⟨e, notes, .error fault⟩
    | .ok depth =>
      let idle := { e with phase := .idle }
      match idle.enter .expanding with
      | .error fault => ⟨idle, notes, .error fault⟩
      | .ok e =>
        match c.sequence depth with
        | .error fault => ⟨e, notes, .error fault⟩
        | .ok word => drawSequence { e with lastLength := word.length } watcher notes c word

end Engine
end TurtleCurves
