import TurtleCurves.Decimal.Fixed
import TurtleCurves.Text.Digit
import TurtleCurves.Value.Display

/-!
This module contains decimal notation with at most a given number of places: the value is rounded to that
many, and zeros at the end of the fraction are left out, with the point if nothing follows it.
-/

namespace TurtleCurves
namespace Decimal

def dropZeros (units : Nat) : Nat → Nat × Nat
  | 0 => (units, 0)
  | places + 1 => if units % 10 = 0 then dropZeros (units / 10) places else (units, places + 1)

theorem dropZeros_spec (units places : Nat) :
    (dropZeros units places).1 * Nat.pow 10 (places - (dropZeros units places).2) = units ∧
      (dropZeros units places).2 ≤ places := by
  simp only [Nat.pow_eq]
  induction places generalizing units with
  | zero => simp [dropZeros]
  | succ places ih =>
    by_cases h : units % 10 = 0
    . obtain ⟨value, bound⟩ := ih (units / 10)
      simp only [dropZeros, h, if_true]
      refine ⟨?_, by omega⟩
      rw [show places + 1 - (dropZeros (units / 10) places).2
          = places - (dropZeros (units / 10) places).2 + 1 by omega, Nat.pow_succ, ← Nat.mul_assoc, value]
      omega
    . simp [dropZeros, h]

/--
Writes a double with at most `places` places; a negative number keeps its sign. That so many places can be
asked for is checked before, by `places?`.
-/
def compact (places : Nat) (x : Float) : String :=
  match Binary.view x with
  | .undefined => "nan"
  | .infinite negative => infiniteText negative
  | .finite b =>
    let (units, places) := dropZeros ((ofBinary b).roundedAt (-places)) places
    (if b.negative && b.mantissa != 0 then "-" else "") ++ pointed units places

def placesLimit : Nat := 1 <<< 31

def placesOfText? (text : String) : Option Nat := do
  if text = "" then none
  let digits ← text.toList.mapM Text.digitValue?
  return digits.foldl (fun n d => 10 * n + d) 0

def places? (precision : Value) : Option Nat := do
  let places ←
    match precision with
    | .int n => if 0 ≤ n then some n.toNat else none
    | .text s => placesOfText? s
    | _ => none
  if places < placesLimit then some places else none

end Decimal
end TurtleCurves
