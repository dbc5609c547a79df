import TurtleCurves.Entries

/-!
This module contains the values that settings, metadata and arguments are made of: those of a data
file, with whole numbers of any size kept apart from doubles, and objects in the order of their fields.
-/

namespace TurtleCurves

inductive Value
  | null
  | bool (b : Bool)
  | int (n : Int)
  | float (x : Float)
  | text (s : String)
  | list (items : List Value)
  | object (fields : List (String × Value))
deriving Repr, Inhabited

abbrev Fields := Entries String Value

namespace Value

/-- Whether a value counts as set: neither nothing, nor false, nor zero, nor empty. -/
def isSet : Value → Bool
  | null => false
  | bool b => b
  | int n => n != 0
  | float x => x != 0
  | text s => s != ""
  | list items => !items.isEmpty
  | object fields => !fields.isEmpty

/-- The elements of a value: of a text its characters, of an object its names. -/
def elements? : Value → Option (List Value)
  | text s => some (s.toList.map fun c => text c.toString)
  | list items => some items
  | object fields => some (fields.map fun (name, _) => text name)
  | _ => none

mutual

/--
Whether two values are equal, reading each double by `same`. A whole number never equals a double of
the same size here: the two are written differently.
-/
def equal (same : Float → Float → Bool) : Value → Value → Bool
  | null, null => true
  | bool a, bool b => a == b
  | int a, int b => a == b
  | float a, float b => same a b
  | text a, text b => a == b
  | list a, list b => equalItems same a b
  | object a, object b => equalFields same a b
  | _, _ => false

def equalItems (same : Float → Float → Bool) : List Value → List Value → Bool
  | [], [] => true
  | a :: restA, b :: restB => equal same a b && equalItems same restA restB
  | _, _ => false

def equalFields (same : Float → Float → Bool) : List (String × Value) → List (String × Value) → Bool
  | [], [] => true
  | (nameA, a) :: restA, (nameB, b) :: restB =>
    nameA == nameB && equal same a b && equalFields same restA restB
  | _, _ => false

end

end Value
end TurtleCurves
