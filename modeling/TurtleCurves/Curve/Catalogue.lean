import TurtleCurves.Curve.Cesaro
import TurtleCurves.Curve.Dragon
import TurtleCurves.Curve.Koch
import TurtleCurves.Curve.Levy
import TurtleCurves.Fault.Message
import TurtleCurves.Text.Lowercase

/-!
This module contains the catalogue of curve families. Names are looked up without regard to case and
listed in the order in which they first came in.
-/

namespace TurtleCurves

structure Catalogue where
  entries : Entries String Family

namespace Catalogue

def builtInDefinitions : Entries String Definition :=
  [("cesaro", Cesaro.pattern.definition), ("koch", Koch.pattern.definition),
    ("levy", Levy.pattern.definition), ("dragon", Dragon.pattern.definition)]

def builtIn : Catalogue :=
  ⟨builtInDefinitions.map fun (name, definition) => (name, definition.family)⟩

def names (c : Catalogue) : List String :=
  c.entries.keys

/-- Puts a family under a name, unless what is registered is none. -/
def register (c : Catalogue) (name : String) (family : Option Family) : Result Catalogue :=
  match family with
  | some family => .ok ⟨c.entries.put (Text.lower name) family⟩
  | none => .error .notCurve

def find (c : Catalogue) (name : String) : Result Family :=
  match c.entries.get? (Text.lower name) with
  | some family => .ok family
  | none => .error (.unknownCurve name c.names)

def findValue (c : Catalogue) (name : Value) : Result Family :=
  match name with
  | .text name => c.find name
  | _ => .error .missingOperation

def create (c : Catalogue) (name iterations : Value) : Result Curve := do
  (← c.findValue name).make iterations

def introduction (f : Family) : Result String := do
  f.describe (← f.make (.int 0))

def summary (f : Family) : Result String :=
  match introduction f with
  | .ok description => .ok description
  | .error (.refused refusal) => .ok (f.name ++ " (unavailable: " ++ refusal.message ++ ")")
  | .error fault => .error fault

def line (entry : String × Family) : Result (String × String) := do
  return (entry.1, ← summary entry.2)

def list (c : Catalogue) : Result (List (String × String)) :=
  c.entries.mapM line

end Catalogue
end TurtleCurves
