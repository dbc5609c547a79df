import TurtleCurves.Curve.Basic
import TurtleCurves.Turtle.Move
import TurtleCurves.Value.Convert

/-!
This module contains scripted curves: families that are given by tokens, productions and a list of moves
for each token, instead of by drawing rules of their own.
-/

namespace TurtleCurves

structure Script where
  name : String
  alphabetName : String
  tokens : List String
  seed : List String
  productions : List (String × List String)
  /-- The moves of each token; a token without any draws nothing. -/
  moves : Entries String (List Move)
  opening : List Move
  limit : Option Value
  /-- The depth to which all curves of the family are expanded, if not to their iteration count. -/
  fixedDepth : Option Value

namespace Script

def symbol (s : Script) (token : String) : Symbol :=
  if s.tokens.contains token then .letter s.alphabetName token token else .loose token

/--
The grammar of the family; a repeated token is one letter, and a repeated production replaces the image
of the first one.
-/
def grammar (s : Script) : Grammar where
  alphabetName := s.alphabetName
  alphabet := (s.tokens.map s.symbol).eraseDups
  seed := s.seed.map s.symbol
  productions := .ofList (s.productions.map fun (key, image) => (s.symbol key, image.map s.symbol))
  distinct := Entries.nodup_eraseDups _

def checkLimit (s : Script) : Result Unit :=
  match s.limit with
  | some limit => limit.toNumber.map fun _ => ()
  | none => .ok ()

def refusal? (s : Script) (iterations : Nat) : Option Refusal :=
  match s.limit with
  | some limit =>
    match limit.toNumber with
    | .ok number =>
      if number.lt (.whole iterations) then
        some (.declined (s.name ++ " supports at most " ++ limit.plain ++ " iterations"))
      else none
    | .error _ => none
  | none => none

def definition (s : Script) : Definition where
  kind := "Custom"
  name := s.name
  grammar := s.grammar
  refusal? := s.refusal?
  depth iterations := s.fixedDepth.getD (.int iterations)
  place _ t := .ok (t.run s.opening)
  draw _ symbol t := .ok (t.run ((s.moves.get? symbol.value).getD []))
  describe _ := s.name ++ " curve"
  step? := none

def make (s : Script) (iterations : Value) : Result Curve := do
  let _ ← Count.forCurve iterations
  s.checkLimit
  s.definition.curve iterations

theorem make_eq_curve {s : Script} (h : s.checkLimit = .ok ()) (iterations : Value) :
    s.make iterations = s.definition.curve iterations := by
  unfold make
  rw [h]
  cases hcount : Count.forCurve iterations with
  | error fault =>
    unfold Definition.curve
    rw [hcount]
    rfl
  | ok count => rfl

theorem count_of_make {s : Script} {iterations : Value} {c : Curve} (h : s.make iterations = .ok c) :
    iterations = .int c.iterations := by
  cases hlimit : s.checkLimit with
  | error fault =>
    unfold make at h
    rw [hlimit] at h
    cases hcount : Count.forCurve iterations with
    | error cause =>
      rw [hcount] at h
      cases h
    | ok count =>
      rw [hcount] at h
      cases h
  | ok _ =>
    rw [make_eq_curve hlimit] at h
    exact Definition.count_of_curve h

def family (s : Script) : Family where
  kind := "Custom"
  name := s.name
  make := s.make
  describe c := .ok c.description
  count_of_make := count_of_make

end Script
end TurtleCurves
