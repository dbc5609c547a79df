import TurtleCurves.Decimal.Shortest
import TurtleCurves.Value

/-!
This module contains numbers as settings hold them: whole numbers of any size and doubles. They are
compared by value, and nothing compares with an undefined double. In mixed arithmetic the whole number
is rounded to a double first, which fails if it is too large for one.
-/

namespace TurtleCurves

inductive Number
  | whole (n : Int)
  | real (x : Float)
deriving Repr, Inhabited, DecidableEq

namespace Number

/-- The number that a value stands for; the truth values are zero and one. -/
def ofValue? : Value → Option Number
  | .bool b => some (whole (if b then 1 else 0))
  | .int n => some (whole n)
  | .float x => some (real x)
  | _ => none

def view : Number → Binary.View
  | whole n => .finite (.ofInt n)
  | real x => Binary.view x

def compare? (a b : Number) : Option Ordering :=
  match a.view, b.view with
  | .undefined, _ | _, .undefined => none
  | .infinite true, .infinite true | .infinite false, .infinite false => some .eq
  | .infinite negative, _ => some (if negative then .lt else .gt)
  | _, .infinite negative => some (if negative then .gt else .lt)
  | .finite a, .finite b => some (a.compare b)

def lt (a b : Number) : Bool :=
  a.compare? b == some .lt

def le (a b : Number) : Bool :=
  a.compare? b == some .lt || a.compare? b == some .eq

/-- The first of two numbers, unless the second is below it. -/
def lesser (a b : Number) : Number :=
  if b.lt a then b else a

/-- The nearest double, unless that is infinite for a whole number. -/
def toFloat? : Number → Option Float
  | real x => some x
  | whole n =>
    let x := Float.ofInt n
    if x.isInf then none else some x

def combine? (wholes : Int → Int → Int) (reals : Float → Float → Float) (a b : Number) :
    Option Number :=
  match a, b with
  | whole a, whole b => some (whole (wholes a b))
  | a, b => do return real (reals (← a.toFloat?) (← b.toFloat?))

def sub? (a b : Number) : Option Number :=
  combine? (· - ·) (· - ·) a b

def double : Number → Number
  | whole n => whole (2 * n)
  | real x => real (2 * x)

def shown : Number → String
  | whole n => toString n
  | real x => Decimal.shown x

theorem compare?_whole (a b : Int) : (whole a).compare? (whole b) = some (compare a b) := by
  have least : Min.min (Binary.ofInt a).exponent (Binary.ofInt b).exponent = 0 := rfl
  simp only [compare?, view, Binary.compare, least, Binary.signedAt_ofInt]

theorem lt_whole (a b : Int) : (whole a).lt (whole b) = decide (a < b) := by
  unfold lt
  rw [compare?_whole]
  rw [Bool.eq_iff_iff]
  simp [Std.compare_eq_lt]

end Number
end TurtleCurves
