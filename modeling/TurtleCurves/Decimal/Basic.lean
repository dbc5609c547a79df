import TurtleCurves.Binary

/-!
This module contains exact decimal numbers and their rounding to a decimal grid. Every finite double
is an exact decimal, since a half is five tenths.
-/

namespace TurtleCurves

/-- The number `digits * 10 ^ exponent`. -/
structure Decimal where
  digits : Nat
  exponent : Int
deriving Repr, DecidableEq, Inhabited

namespace Decimal

/-- The nearest whole number to `num / den`, the even one of two equally near. -/
def roundDiv (num den : Nat) : Nat :=
  let quotient := num / den
  let rest := num % den
  if 2 * rest < den then quotient
  else if den < 2 * rest then quotient + 1
  else if quotient % 2 = 0 then quotient else quotient + 1

def digitCount (n : Nat) : Nat :=
  (Nat.repr n).length

def ofBinary (b : Binary) : Decimal :=
  if 0 ≤ b.exponent then ⟨b.mantissa <<< b.exponent.toNat, 0⟩
  else ⟨b.mantissa * Nat.pow 5 (-b.exponent).toNat, b.exponent⟩

def magnitude (d : Decimal) : Int :=
  (digitCount d.digits : Int) - 1 + d.exponent

/-- How many steps of `10 ^ exponent` make up the number, to the nearest. -/
def roundedAt (d : Decimal) (exponent : Int) : Nat :=
  if exponent ≤ d.exponent then d.digits * Nat.pow 10 (d.exponent - exponent).toNat
  else roundDiv d.digits (Nat.pow 10 (exponent - d.exponent).toNat)

def flooredAt (d : Decimal) (exponent : Int) : Nat :=
  if exponent ≤ d.exponent then d.digits * Nat.pow 10 (d.exponent - exponent).toNat
  else d.digits / Nat.pow 10 (exponent - d.exponent).toNat

end Decimal
end TurtleCurves
