/-!
This module contains straight lines of pixels. A line takes one pixel for each step along the axis on
which it is longer, and goes sideways in proportion, rounded to the nearest pixel and forward from the
middle between two.
-/

namespace TurtleCurves

structure Pixel where
  column : Int
  row : Int
deriving Repr, DecidableEq, Inhabited

namespace Pixel

/-- How far a line has come after `step` of `steps` steps along an axis on which it has a length. -/
def progress (length steps step : Nat) : Nat :=
  (2 * step * length + steps) / (2 * steps)

def stepsTo (p q : Pixel) : Nat :=
  max (q.column - p.column).natAbs (q.row - p.row).natAbs

def between (p q : Pixel) (step : Nat) : Pixel :=
  let steps := p.stepsTo q
  let across := q.column - p.column
  let down := q.row - p.row
  ⟨p.column + across.sign * progress across.natAbs steps step,
   p.row + down.sign * progress down.natAbs steps step⟩

def lineTo (p q : Pixel) : List Pixel :=
  (List.range (p.stepsTo q + 1)).map (p.between q)

theorem progress_zero (length steps : Nat) : progress length steps 0 = 0 := by
  by_cases h : steps = 0
  . simp [progress, h]
  . simp only [progress, Nat.mul_zero, Nat.zero_mul, Nat.zero_add]
    exact Nat.div_eq_of_lt (by omega)

theorem progress_steps (length : Nat) {steps : Nat} (h : 0 < steps) :
    progress length steps steps = length := by
  rw [progress, Nat.div_eq_of_lt_le]
  . rw [Nat.mul_comm length]
    omega
  . rw [Nat.add_mul, Nat.mul_comm length]
    omega

theorem between_zero (p q : Pixel) : p.between q 0 = p := by
  simp [between, progress_zero]

end Pixel
end TurtleCurves
