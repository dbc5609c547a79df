import TurtleCurves.Curve.Pattern

/-!
This module contains the Koch snowflake on an equilateral triangle of unit side.
-/

namespace TurtleCurves
namespace Koch

def F : Symbol := .letter "KochSymbol" "F" "F"

def plus : Symbol := .letter "KochSymbol" "PLUS" "+"

def minus : Symbol := .letter "KochSymbol" "MINUS" "-"

def grammar : Grammar where
  alphabetName := "KochSymbol"
  alphabet := [F, plus, minus]
  seed := [F, minus, minus, F, minus, minus, F]
  productions := [(F, [F, plus, F, minus, minus, F, plus, F])]
  distinct := by decide

def angle : Int := 60

def motion? (s : Symbol) : Option Motion :=
  if s = F then some .forward
  else if s = plus then some (.turn angle)
  else if s = minus then some (.turn (-angle))
  else none

def pattern : Pattern where
  kind := "KochSnowflake"
  name := "Koch"
  grammar := grammar
  motion? := motion?
  factor := 3
  start := ⟨-0.5, (3 : Float).sqrt / 6⟩
  heading _ := .ok 0
  describe iterations :=
    "Koch snowflake: F -> F+F--F+F at 60 degrees, " ++ toString iterations ++ " iterations"

theorem grammar_closed : grammar.Closed := by
  rw [← Grammar.fault?_eq_none_iff]
  decide

end Koch
end TurtleCurves
