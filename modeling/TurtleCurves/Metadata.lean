import TurtleCurves.Json.Reader
import TurtleCurves.Json.Writer
import TurtleCurves.Value.Convert

/-!
This module contains the description that a rendered image comes with: which curve it shows, how it was
drawn, and when. As a document it has its fields in a fixed order.
-/

namespace TurtleCurves

structure Metadata where
  fractalType : Value
  iterations : Value
  symbolCount : Value
  segmentCount : Value
  resolution : List Value
  bounds : List Value
  renderTimeSeconds : Value
  timestamp : Value
  softwareVersion : Value
  fractalParameters : Value
deriving Repr, Inhabited

namespace Metadata

def version : String := "1.0.0"

def requiredNames : List String :=
  ["fractal_type", "iterations", "symbol_count", "segment_count", "resolution", "bounds",
   "render_time_seconds"]

def optionalNames : List String :=
  ["timestamp", "software_version", "fractal_parameters"]

def timeOr (now : String) (timestamp : Value) : Value :=
  if timestamp.isSet then timestamp else .text now

def parametersOf : Value → Value
  | .null => .object []
  | parameters => parameters

def require (fields : Fields) (name : String) : Result Value :=
  match fields.get? name with
  | some value => .ok value
  | none => .error .missingField

def ofValue (now : String) (data : Value) : Result Metadata := do
  let fields ← data.toFields
  let resolution ← (← require fields "resolution").elements
  let bounds ← (← require fields "bounds").elements
  if fields.keys.any fun name => !(requiredNames ++ optionalNames).contains name then
    .error .wrongSort
  match requiredNames.mapM fields.get? with
  | some [fractalType, iterations, symbolCount, segmentCount, _, _, renderTimeSeconds] =>
    return {
      fractalType, iterations, symbolCount, segmentCount, resolution, bounds, renderTimeSeconds
      timestamp := timeOr now ((fields.get? "timestamp").getD (.text ""))
      softwareVersion := (fields.get? "software_version").getD (.text version)
      fractalParameters := parametersOf ((fields.get? "fractal_parameters").getD .null) }
  | _ => .error .wrongSort

def toValue (m : Metadata) : Value :=
  .object
    [("fractal_type", m.fractalType), ("iterations", m.iterations), ("symbol_count", m.symbolCount),
     ("segment_count", m.segmentCount), ("resolution", .list m.resolution), ("bounds", .list m.bounds),
     ("render_time_seconds", m.renderTimeSeconds), ("timestamp", m.timestamp),
     ("software_version", m.softwareVersion), ("fractal_parameters", m.fractalParameters)]

def layout : Json.Layout := .lines "  "

def write (layout : Json.Layout) (m : Metadata) : String :=
  Json.write layout m.toValue

def read (now : String) (s : String) : Result Metadata := do
  ofValue now (← Json.read s)

def equal (same : Float → Float → Bool) (a b : Metadata) : Bool :=
  a.toValue.equal same b.toValue

end Metadata
end TurtleCurves
