/-!
This module contains the exact reading of doubles: a finite one is a signed natural mantissa times a
power of two. The operations here compute on that value and round at most once, to the nearest double
with ties to the even mantissa.
-/

namespace TurtleCurves

open Float.Model (UnpackedFloat)

/-- The number `mantissa * 2 ^ exponent`, negated if `negative`. -/
structure Binary where
  negative : Bool
  mantissa : Nat
  exponent : Int
deriving Repr, DecidableEq, Inhabited

inductive Binary.View
  | undefined
  | infinite (negative : Bool)
  | finite (value : Binary)
deriving Repr, DecidableEq

namespace Binary

def view (x : Float) : View :=
  match x.toModel.unpack with
  | .notANumber => .undefined
  | .infinity sign => .infinite (sign == .negative)
  | .zero sign => .finite ⟨sign == .negative, 0, 0⟩
  | .finite sign mantissa exponent _ => .finite ⟨sign == .negative, mantissa, exponent⟩

def toFloat (b : Binary) : Float :=
  let sign := if b.negative then .negative else .positive
  if b.mantissa = 0 then .ofModel (.pack (.zero sign))
  else .ofModel (.pack (.round .binary64 sign b.mantissa b.exponent))

def mantissaAt (b : Binary) (exponent : Int) : Nat :=
  b.mantissa <<< (b.exponent - exponent).toNat

def signedAt (b : Binary) (exponent : Int) : Int :=
  if b.negative then -(b.mantissaAt exponent : Int) else b.mantissaAt exponent

def wholePart (b : Binary) : Nat :=
  b.mantissa <<< b.exponent.toNat >>> (-b.exponent).toNat

def truncate (b : Binary) : Int :=
  if b.negative then -(b.wholePart : Int) else b.wholePart

def floor (b : Binary) : Int :=
  let exponent := min b.exponent 0
  b.signedAt exponent >>> (-exponent).toNat

def compare (a b : Binary) : Ordering :=
  let exponent := min a.exponent b.exponent
  Ord.compare (a.signedAt exponent) (b.signedAt exponent)

/-- What is left of `a` after taking away whole multiples of `b`, with the sign of `a`. -/
def remainder (a b : Binary) : Binary :=
  let exponent := min a.exponent b.exponent
  ⟨a.negative, a.mantissaAt exponent % b.mantissaAt exponent, exponent⟩

def hypotenuse (a b : Binary) : Float :=
  let exponent := min a.exponent b.exponent
  let square := a.mantissaAt exponent * a.mantissaAt exponent + b.mantissaAt exponent * b.mantissaAt exponent
  if h : 0 < square then
    .ofModel (.pack (.sqrt .binary64 (.finite .positive square (2 * exponent) h)))
  else 0

def ofInt (n : Int) : Binary :=
  ⟨n < 0, n.natAbs, 0⟩

theorem mantissaAt_self (b : Binary) : b.mantissaAt b.exponent = b.mantissa := by
  simp [mantissaAt]

theorem signedAt_ofInt (n : Int) : (ofInt n).signedAt 0 = n := by
  have negative : (ofInt n).negative = decide (n < 0) := rfl
  have mantissa : (ofInt n).mantissaAt 0 = n.natAbs := mantissaAt_self (ofInt n)
  simp only [signedAt, negative, mantissa, decide_eq_true_eq]
  split <;> omega

end Binary
end TurtleCurves
