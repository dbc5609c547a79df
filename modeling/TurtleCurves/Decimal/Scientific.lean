import TurtleCurves.Decimal.Fixed

/-!
This module contains scientific notation with a fixed number of places: one digit, a point, the places,
and the power of ten with its sign and at least two digits.
-/

namespace TurtleCurves
namespace Decimal

def exponentText (exponent : Int) : String :=
  let digits := Nat.repr exponent.natAbs
  (if exponent < 0 then "-" else "+") ++ (if digits.length < 2 then "0" ++ digits else digits)

def scientific (places : Nat) (x : Float) : String :=
  match Binary.view x with
  | .undefined => "nan"
  | .infinite negative => infiniteText negative
  | .finite b =>
    let d := ofBinary b
    let magnitude := if b.mantissa = 0 then 0 else d.magnitude
    let units := d.roundedAt (magnitude - places)
    let (units, magnitude) :=
      if units < Nat.pow 10 (places + 1) then (units, magnitude) else (units / 10, magnitude + 1)
    (if b.negative then "-" else "") ++ pointed units places ++ "e" ++ exponentText magnitude

end Decimal
end TurtleCurves
