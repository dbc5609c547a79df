import TurtleCurves.Text.Blank
import TurtleCurves.Text.Digit

/-!
This module contains the reading of whole numbers: blanks around them, a sign, leading zeros, digits
of any script and single underscores between two digits are allowed.
-/

namespace TurtleCurves
namespace Text

def maxIntegerDigits : Nat := 4300

structure DigitRun where
  value : Nat := 0
  count : Nat := 0

/--
Reads digits to the end of the text. An underscore has to stand between two digits, which is why
the digit after it is read with it.
-/
def digitRun? (run : DigitRun) : List Char → Option DigitRun
  | [] => some run
  | ['_'] => none
  | '_' :: c :: rest => do
    let d ← digitValue? c
    digitRun? ⟨10 * run.value + d, run.count + 1⟩ rest
  | c :: rest => do
    let d ← digitValue? c
    digitRun? ⟨10 * run.value + d, run.count + 1⟩ rest

def natural? : List Char → Option Nat
  | [] => none
  | c :: rest => do
    let d ← digitValue? c
    let run ← digitRun? ⟨d, 1⟩ rest
    if run.count ≤ maxIntegerDigits then some run.value else none

def integer? (text : String) : Option Int :=
  match strip isPadding text.toList with
  | '-' :: rest => (natural? rest).map fun (n : Nat) => -(n : Int)
  | '+' :: rest => (natural? rest).map fun (n : Nat) => (n : Int)
  | cs => (natural? cs).map fun (n : Nat) => (n : Int)

end Text
end TurtleCurves
