import TurtleCurves.Settings.Rules
import TurtleCurves.Text.Lowercase

/-!
This module contains the settings that come from environment variables. Each field has a variable, named
in capitals after a common lead; whole numbers and colors are read from its text, and a flag is set by a
few words.
-/

namespace TurtleCurves
namespace Settings

abbrev Environment := Entries String String

namespace Environment

def lead : String := "LSYSTEM_FRACTAL_"

def variableName (lead : String) (field : Field) : String :=
  lead ++ field.name.toUpper

def flagWords : List String := ["1", "true", "yes", "on"]

def readFlag (text : String) : Bool :=
  flagWords.contains (Text.lower (String.ofList (Text.strip Text.isBlank text.toList)))

def parts (text : String) : List String :=
  (text.toList.splitOn ',').map String.ofList

def readValue? (field : Field) (text : String) : Option Value :=
  match field.reading with
  | .flag => some (.bool (readFlag text))
  | .whole => (Text.integer? text).map .int
  | .color => ((parts text).mapM Text.integer?).map fun channels => .list (channels.map .int)

def override? (environment : Environment) (lead : String) (field : Field) :
    Result (Option (Field × Value)) :=
  match environment.get? (variableName lead field) with
  | none => .ok none
  | some text =>
    match readValue? field text with
    | some value => .ok (some (field, value))
    | none => .error (.badVariable field.name text)

def overrides (environment : Environment) (lead : String) : Result (List (Field × Value)) :=
  Field.all.filterMapM (environment.override? lead)

end Environment

def applyEnvironment (s : Settings) (environment : Environment) : Result Settings := do
  return s.setAll (← environment.overrides Environment.lead)

end Settings
end TurtleCurves
