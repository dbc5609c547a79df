import TurtleCurves.Curve.Pattern

/-!
This module contains the Césaro curve on the four sides of a unit square: each side grows a spike.
-/

namespace TurtleCurves
namespace Cesaro

def F : Symbol := .letter "CesaroSymbol" "F" "F"

def Q : Symbol := .letter "CesaroSymbol" "Q" "Q"

def L : Symbol := .letter "CesaroSymbol" "L" "L"

def R : Symbol := .letter "CesaroSymbol" "R" "R"

def grammar : Grammar where
  alphabetName := "CesaroSymbol"
  alphabet := [F, Q, L, R]
  seed := [F, Q, F, Q, F, Q, F, Q]
  productions := [(F, [F, L, F, R, R, F, L, F])]
  distinct := by decide

def cornerAngle : Int := 90

def spikeAngle : Int := 85

def motion? (s : Symbol) : Option Motion :=
  if s = F then some .forward
  else if s = Q then some (.turn cornerAngle)
  else if s = L then some (.turn spikeAngle)
  else if s = R then some (.turn (-spikeAngle))
  else none

def pattern : Pattern where
  kind := "CesaroFractal"
  name := "Cesaro"
  grammar := grammar
  motion? := motion?
  factor := 2.2
  start := ⟨0, -0.5⟩
  heading _ := .ok 0
  describe iterations :=
    "Césaro: each side F -> F L F R R F L F with 85 degree spikes, " ++ toString iterations ++
      " iterations"

theorem grammar_closed : grammar.Closed := by
  rw [← Grammar.fault?_eq_none_iff]
  decide

end Cesaro
end TurtleCurves
