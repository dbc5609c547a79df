import TurtleCurves.Curve.Pattern

/-!
This module contains the Lévy C curve, which spans the unit interval.
-/

namespace TurtleCurves
namespace Levy

def F : Symbol := .letter "LevySymbol" "F" "F"

def plus : Symbol := .letter "LevySymbol" "PLUS" "+"

def minus : Symbol := .letter "LevySymbol" "MINUS" "-"

def grammar : Grammar where
  alphabetName := "LevySymbol"
  alphabet := [F, plus, minus]
  seed := [F]
  productions := [(F, [plus, F, minus, minus, F, plus])]
  distinct := by decide

def angle : Int := 45

def motion? (s : Symbol) : Option Motion :=
  if s = F then some .forward
  else if s = plus then some (.turn angle)
  else if s = minus then some (.turn (-angle))
  else none

def pattern : Pattern where
  kind := "LevyCCurve"
  name := "Levy C"
  grammar := grammar
  motion? := motion?
  factor := (2 : Float).sqrt
  start := ⟨0, 0⟩
  heading _ := .ok 0
  describe iterations :=
    "Lévy C curve: F -> +F--F+ at 45 degrees, " ++ toString iterations ++ " iterations"

theorem grammar_closed : grammar.Closed := by
  rw [← Grammar.fault?_eq_none_iff]
  decide

end Levy
end TurtleCurves
