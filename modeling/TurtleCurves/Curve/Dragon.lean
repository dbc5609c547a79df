import TurtleCurves.Curve.Pattern

/-!
This module contains the Heighway dragon, which spans the unit interval. Each pass rotates its chord by
45 degrees, so drawing begins turned back by as much for every iteration.
-/

namespace TurtleCurves
namespace Dragon

def F : Symbol := .letter "DragonSymbol" "F" "F"

/-- The letter that grows a fold to the left. -/
def X : Symbol := .letter "DragonSymbol" "X" "X"

/-- The letter that grows a fold to the right. -/
def Y : Symbol := .letter "DragonSymbol" "Y" "Y"

def plus : Symbol := .letter "DragonSymbol" "PLUS" "+"

def minus : Symbol := .letter "DragonSymbol" "MINUS" "-"

def grammar : Grammar where
  alphabetName := "DragonSymbol"
  alphabet := [F, X, Y, plus, minus]
  seed := [F, X]
  productions := [(X, [X, plus, Y, F, plus]), (Y, [minus, F, X, minus, Y])]
  distinct := by decide

def angle : Int := 90

def motion? (s : Symbol) : Option Motion :=
  if s = F then some .forward
  else if s = plus then some (.turn angle)
  else if s = minus then some (.turn (-angle))
  else if s = X ∨ s = Y then some .rest
  else none

def heading (iterations : Nat) : Result Float := do
  return -(← Pattern.double iterations) * Angle.halfTurn / 4

def pattern : Pattern where
  kind := "DragonCurve"
  name := "Dragon"
  grammar := grammar
  motion? := motion?
  factor := (2 : Float).sqrt
  start := ⟨0, 0⟩
  heading := heading
  describe iterations :=
    "Heighway dragon: X -> X+YF+, Y -> -FX-Y, " ++ toString iterations ++ " iterations"

theorem grammar_closed : grammar.Closed := by
  rw [← Grammar.fault?_eq_none_iff]
  decide

end Dragon
end TurtleCurves
