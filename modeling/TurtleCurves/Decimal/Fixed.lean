import TurtleCurves.Decimal.Basic

/-!
This module contains decimal notation with a fixed number of places. The digits are those of the exact
value, rounded to the nearest, with ties to the even last digit.
-/

namespace TurtleCurves
namespace Decimal

structure FixedFormat where
  places : Nat
  /-- Whether a negative number that rounds to zero keeps its sign. -/
  signedZero : Bool

/-- The digits of `n` in units of `10 ^ -places`, with the point put in. -/
def pointed (n places : Nat) : String :=
  if places = 0 then Nat.repr n
  else
    let digits := (Nat.repr (n % Nat.pow 10 places)).toList
    Nat.repr (n / Nat.pow 10 places) ++ "." ++
      String.ofList (List.replicate (places - digits.length) '0' ++ digits)

def infiniteText (negative : Bool) : String :=
  if negative then "-inf" else "inf"

def fixed (format : FixedFormat) (x : Float) : String :=
  match Binary.view x with
  | .undefined => "nan"
  | .infinite negative => infiniteText negative
  | .finite b =>
    let units := (ofBinary b).roundedAt (-format.places)
    let sign := if b.negative && (format.signedZero || units != 0) then "-" else ""
    sign ++ pointed units format.places

end Decimal
end TurtleCurves
