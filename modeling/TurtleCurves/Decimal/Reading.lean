/-!
This module contains the reading of decimal numbers in the notation of data files: an optional minus,
digits without superfluous leading zeros, and an optional fraction and power of ten.
-/

namespace TurtleCurves
namespace Decimal

structure Literal where
  negative : Bool
  whole : List Char
  fraction : List Char
  exponent : Option Int
deriving Repr, DecidableEq

def digitsValue (cs : List Char) : Nat :=
  cs.foldl (fun n c => 10 * n + (c.toNat - '0'.toNat)) 0

def spanDigits (cs : List Char) : List Char × List Char :=
  (cs.takeWhile Char.isDigit, cs.dropWhile Char.isDigit)

def readWhole : List Char → Option (List Char × List Char)
  | '0' :: rest => some (['0'], rest)
  | cs =>
    match spanDigits cs with
    | ([], _) => none
    | (digits, rest) => some (digits, rest)

def readFraction : List Char → List Char × List Char
  | '.' :: cs =>
    match spanDigits cs with
    | ([], _) => ([], '.' :: cs)
    | (digits, rest) => (digits, rest)
  | cs => ([], cs)

def readSign : List Char → Bool × List Char
  | '-' :: cs => (true, cs)
  | '+' :: cs => (false, cs)
  | cs => (false, cs)

def readExponent (cs : List Char) : Option Int × List Char :=
  match cs with
  | c :: after =>
    if c = 'e' ∨ c = 'E' then
      let (negative, digits) := readSign after
      match spanDigits digits with
      | ([], _) => (none, cs)
      | (power, rest) =>
        let n : Int := digitsValue power
        (some (if negative then -n else n), rest)
    else (none, cs)
  | [] => (none, [])

def readLiteral (cs : List Char) : Option (Literal × List Char) :=
  let (negative, cs) : Bool × List Char :=
    match cs with
    | '-' :: rest => (true, rest)
    | _ => (false, cs)
  match readWhole cs with
  | none => none
  | some (whole, cs) =>
    let (fraction, cs) := readFraction cs
    let (exponent, cs) := readExponent cs
    some (⟨negative, whole, fraction, exponent⟩, cs)

namespace Literal

def isWhole (l : Literal) : Bool :=
  l.fraction.isEmpty && l.exponent.isNone

def toInt (l : Literal) : Int :=
  let n : Int := digitsValue l.whole
  if l.negative then -n else n

def toFloat (l : Literal) : Float :=
  let digits := digitsValue (l.whole ++ l.fraction)
  let power := l.exponent.getD 0 - l.fraction.length
  let magnitude := Float.ofScientific digits (power < 0) power.natAbs
  if l.negative then -magnitude else magnitude

end Literal

def readFloat? (text : String) : Option Float :=
  if text = "nan" then some (0.0 / 0.0)
  else if text = "inf" then some (1.0 / 0.0)
  else if text = "-inf" then some (-1.0 / 0.0)
  else
    match readLiteral text.toList with
    | some (literal, []) => some literal.toFloat
    | _ => none

end Decimal
end TurtleCurves
