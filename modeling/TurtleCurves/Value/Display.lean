import TurtleCurves.Number
import TurtleCurves.Text.Quoted

/-!
This module contains the form in which messages show a value: texts in quotes, the absent value as
`None`, lists in brackets and objects in braces.
-/

namespace TurtleCurves
namespace Value

def boolText (b : Bool) : String :=
  if b then "True" else "False"

mutual

def shown : Value → String
  | null => "None"
  | bool b => boolText b
  | int n => toString n
  | float x => Decimal.shown x
  | text s => Text.quoted s
  | list items => "[" ++ ", ".intercalate (shownItems items) ++ "]"
  | object fields => "\x7b" ++ ", ".intercalate (shownFields fields) ++ "\x7d"

def shownItems : List Value → List String
  | [] => []
  | item :: rest => item.shown :: shownItems rest

def shownFields : List (String × Value) → List String
  | [] => []
  | (name, value) :: rest => (Text.quoted name ++ ": " ++ value.shown) :: shownFields rest

end

def plain : Value → String
  | text s => s
  | value => value.shown

/-- A fixed sequence as messages show it: in parentheses, with a comma after a single item. -/
def shownTuple (items : List Value) : String :=
  match shownItems items with
  | [single] => "(" ++ single ++ ",)"
  | several => "(" ++ ", ".intercalate several ++ ")"

end Value
end TurtleCurves
