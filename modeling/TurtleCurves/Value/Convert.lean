import TurtleCurves.Fault
import TurtleCurves.Text.Integer
import TurtleCurves.Value.Display

/-!
This module contains the uses of a value as a whole number, as a number to compare, and as a sequence.
-/

namespace TurtleCurves
namespace Value

/-- The whole number that a value stands for: a text is read, a double loses its fraction. -/
def toInt : Value → Result Int
  | bool b => .ok (if b then 1 else 0)
  | int n => .ok n
  | float x =>
    match Binary.view x with
    | .undefined => .error .badValue
    | .infinite _ => .error .overflow
    | .finite b => .ok b.truncate
  | text s =>
    match Text.integer? s with
    | some n => .ok n
    | none => .error .badValue
  | _ => .error .wrongSort

def toNumber (v : Value) : Result Number :=
  match Number.ofValue? v with
  | some n => .ok n
  | none => .error .wrongSort

def elements (v : Value) : Result (List Value) :=
  match v.elements? with
  | some items => .ok items
  | none => .error .wrongSort

def toField (pair : Value) : Result (String × Value) := do
  match ← pair.elements with
  | [text name, value] => return (name, value)
  | [list _, _] | [object _, _] => .error .wrongSort
  | [name, value] => return (name.shown, value)
  | _ => .error .badValue

def toFields : Value → Result Fields
  | object fields => .ok fields
  | value => do return .ofList (← (← value.elements).mapM toField)

@[simp]
theorem toInt_int (n : Int) : (int n).toInt = .ok n := rfl

@[simp]
theorem toNumber_int (n : Int) : (int n).toNumber = .ok (.whole n) := rfl

end Value
end TurtleCurves
