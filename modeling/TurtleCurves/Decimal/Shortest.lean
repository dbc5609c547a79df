import TurtleCurves.Decimal.Scientific

/-!
This module contains the shortest decimal of a double: the fewest digits that read back as the same
double, and of those the nearest to its value. Around each double lies the interval of the numbers
that round to it; the search tries grids of one, two, and so on up to seventeen digits, and on each the
two neighbours of the value.
-/

namespace TurtleCurves
namespace Decimal

def compareScaled (a : Nat) (k : Int) (b : Nat) (e : Int) : Ordering :=
  compare ((a * Nat.pow 10 k.toNat) <<< (-e).toNat) ((b * Nat.pow 10 (-k).toNat) <<< e.toNat)

def leastMantissa : Nat := 1 <<< 52

def leastExponent : Int := -1074

/--
The ends of the interval of numbers that round to `m * 2 ^ e`, in units of `2 ^ (e - 2)`. Below the
least mantissa of a binade the doubles lie twice as dense.
-/
def roundingInterval (m : Nat) (e : Int) : Nat × Nat :=
  (if m = leastMantissa && leastExponent < e then 4 * m - 1 else 4 * m - 2, 4 * m + 2)

/-- Whether `c * 10 ^ k` rounds to `m * 2 ^ e`; the ends round to the even mantissa. -/
def roundsTo (c : Nat) (k : Int) (m : Nat) (e : Int) : Bool :=
  let (low, high) := roundingInterval m e
  let fromLow := compareScaled c k low (e - 2)
  let fromHigh := compareScaled c k high (e - 2)
  if m % 2 = 0 then fromLow != .lt && fromHigh != .gt else fromLow == .gt && fromHigh == .lt

/-- The neighbour of `m * 2 ^ e` in steps of `10 ^ k` that rounds to it, the nearer one of two. -/
def neighbour? (m : Nat) (e : Int) (k : Int) : Option Nat :=
  let below := (ofBinary ⟨false, m, e⟩).flooredAt k
  let above := below + 1
  match roundsTo below k m e, roundsTo above k m e with
  | true, true =>
    match compareScaled (below + above) k (2 * m) e with
    | .lt => some above
    | .gt => some below
    | .eq => some (if below % 2 = 0 then below else above)
  | true, false => some below
  | false, true => some above
  | false, false => none

def maxDigits : Nat := 17

def trimmed : Nat → Decimal → Decimal
  | 0, d => d
  | fuel + 1, d =>
    if d.digits ≠ 0 ∧ d.digits % 10 = 0 then trimmed fuel ⟨d.digits / 10, d.exponent + 1⟩ else d

def shortest (m : Nat) (e : Int) : Decimal :=
  let exact := ofBinary ⟨false, m, e⟩
  let candidate? (count : Nat) : Option Decimal :=
    let k := exact.magnitude - count
    (neighbour? m e k).map fun c => ⟨c, k⟩
  trimmed (maxDigits + 1) (((List.range maxDigits).findSome? candidate?).getD exact)

def leastPositional : Int := -4

def leastExponential : Int := 16

def text (d : Decimal) : String :=
  let digits := (Nat.repr d.digits).toList
  let magnitude := d.magnitude
  if magnitude < leastPositional || leastExponential ≤ magnitude then
    let lead := String.ofList (digits.take 1)
    let rest := String.ofList (digits.drop 1)
    lead ++ (if rest.isEmpty then "" else "." ++ rest) ++ "e" ++ exponentText magnitude
  else if 0 ≤ d.exponent then
    String.ofList (digits ++ List.replicate d.exponent.toNat '0') ++ ".0"
  else pointed d.digits (-d.exponent).toNat

def shown (x : Float) : String :=
  match Binary.view x with
  | .undefined => "nan"
  | .infinite negative => infiniteText negative
  | .finite b =>
    let sign := if b.negative then "-" else ""
    if b.mantissa = 0 then sign ++ "0.0" else sign ++ text (shortest b.mantissa b.exponent)

end Decimal
end TurtleCurves
