import TurtleCurves.Json.Reader
import TurtleCurves.Json.Writer
import TurtleCurves.Settings.Environment
import TurtleCurves.Settings.Section
import TurtleCurves.Store

/-!
This module contains settings files, and how the settings of a render come about: from a file if one is
named, else from the usual values, and then from the environment.
-/

namespace TurtleCurves
namespace Settings

def fileLayout : Json.Layout := .lines "  "

def load (store : Store) (name : FileName) : Result Value := do
  match Json.read (← store.readText name) with
  | .ok (.object fields) => return .object fields
  | .ok _ => .error (.notObject name.shown)
  | .error .malformedJson => .error (.invalidJson name.shown)
  | .error fault => .error fault

/-- The settings of a render; an empty name is no file. -/
def assemble (store : Store) (file : Option String) (environment : Environment) : Result Settings := do
  let settings ←
    match file.filter (· ≠ "") with
    | some name => ofDocument (← load store (.ofText name))
    | none => .ok {}
  let settings ← settings.applyEnvironment environment
  settings.validate
  return settings

def save (s : Settings) (name : FileName) : Task Unit := do
  Store.makeParents name
  Store.write name (.text "")
  let document ← Task.ofResult s.toDocument
  Store.write name (.text (Json.write fileLayout document ++ "\n"))

end Settings
end TurtleCurves
