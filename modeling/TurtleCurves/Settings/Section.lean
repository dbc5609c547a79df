import TurtleCurves.Settings.Rules

/-!
This module contains the reading of settings from data. The settings stand in a section of their own;
names that are none of a field are refused all at once, colors become whole numbers, and the rules are
checked at the end.
-/

namespace TurtleCurves
namespace Settings

def sectionName : String := "render"

def isKnown (name : String) : Bool :=
  (Field.ofName? name).isSome

def unknownNames (names : List Value) : Result (List String) := do
  let unknown ← names.filterMapM fun name => do
    match name with
    | .text name => return if isKnown name then none else some name
    | _ => .error .wrongSort
  return (unknown.mergeSort (· ≤ ·)).eraseDups

def readColor (color : Value) : Result Value := do
  return .list ((← (← color.elements).mapM Value.toInt).map .int)

def readColors (fields : Fields) : Result Fields :=
  Field.colors.foldlM (fun fields field => do
    match fields.get? field.name with
    | some color => return fields.put field.name (← readColor color)
    | none => return fields) fields

/-- Reads settings from a value, whose names are looked at before its values. -/
def ofValue (data : Value) : Result Settings := do
  let unknown ← unknownNames (← data.elements)
  if unknown ≠ [] then
    .error (.unknownSettings unknown)
  let settings ← ofFields (← readColors (← data.toFields))
  settings.validate
  return settings

/-- Reads settings from their section in a document; without one they are the usual ones. -/
def ofDocument (document : Value) : Result Settings :=
  match document with
  | .object fields =>
    match (Entries.get? fields sectionName).getD (.object []) with
    | .object fields => ofValue (.object fields)
    | _ => .error .sectionNotObject
  | _ => .error .missingOperation

def toDocument (s : Settings) : Result Value := do
  return .object [(sectionName, .object (← s.toFields))]

end Settings
end TurtleCurves
