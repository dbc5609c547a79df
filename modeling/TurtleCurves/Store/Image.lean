import TurtleCurves.Metadata
import TurtleCurves.Store

/-!
This module contains the saving of pictures with their descriptions. A picture without loss carries its
description in texts of its own; beside a picture with loss the description lies in a companion file.
-/

namespace TurtleCurves

inductive Picture.Format
  | png
  | jpeg
deriving Repr, DecidableEq

namespace Picture

namespace Format

def ofSuffix : Entries String Format :=
  [(".png", png), (".jpg", jpeg), (".jpeg", jpeg)]

end Format

def suffixes : List String :=
  Format.ofSuffix.keys

def drawingSuffix : String := ".svg"

def companionSuffix : String := ".json"

def descriptionKey : String := "FractalMetadata"

def notes (m : Metadata) : Result (List (String × String)) :=
  match m.timestamp with
  | .text time =>
    .ok
      [("Title", "Fractal: " ++ m.fractalType.plain),
       ("Software", "lsystem-fractal v" ++ m.softwareVersion.plain),
       ("Creation Time", time), (descriptionKey, m.write Metadata.layout)]
  | _ => .error .missingOperation

def namedQualities : List String :=
  ["web_low", "web_medium", "web_high", "web_very_high", "web_maximum", "low", "medium", "high", "maximum"]

def checkQuality : Value → Result Unit
  | .int _ | .bool _ => .ok ()
  | .text name => if namedQualities.contains name then .ok () else .error .badValue
  | .list _ | .object _ => .error .wrongSort
  | _ => .error .badValue

def savePng (p : Picture) (name : FileName) (metadata : Option Metadata) : Task Unit := do
  let notes ←
    match metadata with
    | some m => Task.ofResult (notes m)
    | none => pure []
  Store.write name (.png p notes)

def saveJpeg (p : Picture) (name : FileName) (metadata : Option Metadata) (quality : Value) :
    Task Unit := do
  Task.ofResult (checkQuality quality)
  Store.write name (.jpeg { p with mode := .color })
  match metadata with
  | some m => Store.write (name.withSuffix companionSuffix) (.text (m.write Metadata.layout))
  | none => pure ()

def save (p : Picture) (name : FileName) (metadata : Option Metadata) (quality : Value) : Task Unit := do
  match Format.ofSuffix.get? name.suffix with
  | none => throw (.unsupportedFormat name.suffix (suffixes ++ [drawingSuffix]))
  | some format =>
    Store.makeParents name
    match format with
    | .png => p.savePng name metadata
    | .jpeg => p.saveJpeg name metadata quality

end Picture

namespace Metadata

def find (store : Store) (name : FileName) : Result (Option String) := do
  if name.suffix = ".png" then
    match ← store.contents name with
    | .png _ notes => return Entries.get? notes Picture.descriptionKey
    | .jpeg _ => .error .missingOperation
    | .text _ | .bytes _ => .error .notImage
  else if name.last = "" then .error .badValue
  else
    let companion := name.withSuffix Picture.companionSuffix
    if (store.find? companion).isSome then return some (← store.readText companion) else return none

def load (now : String) (store : Store) (name : FileName) : Result (Option Metadata) := do
  match ← find store name with
  | some s => return some (← read now s)
  | none => return none

end Metadata
end TurtleCurves
