import TurtleCurves.Color.Palette
import TurtleCurves.Settings.Field
import TurtleCurves.Value.Convert

/-!
This module contains the settings of a render. A field holds whatever value it was given; which values
make sense is decided by the rules that a render checks before it uses them.
-/

namespace TurtleCurves

structure Settings where
  width : Value := .int 1024
  height : Value := .int 1024
  margin : Value := .int 16
  lineWidth : Value := .int 1
  background : Value := Palette.nightBlue.toValue
  gradientStart : Value := Palette.white.toValue
  gradientEnd : Value := Palette.gray.toValue
  gradientCount : Value := .int 256
  maxSymbols : Value := .int 5000000
  jpegQuality : Value := .int 95
  saveMetadata : Value := .bool true
deriving Repr, Inhabited

namespace Settings

def get (s : Settings) : Field → Value
  | .width => s.width
  | .height => s.height
  | .margin => s.margin
  | .lineWidth => s.lineWidth
  | .background => s.background
  | .gradientStart => s.gradientStart
  | .gradientEnd => s.gradientEnd
  | .gradientCount => s.gradientCount
  | .maxSymbols => s.maxSymbols
  | .jpegQuality => s.jpegQuality
  | .saveMetadata => s.saveMetadata

def set (s : Settings) (field : Field) (value : Value) : Settings :=
  match field with
  | .width => { s with width := value }
  | .height => { s with height := value }
  | .margin => { s with margin := value }
  | .lineWidth => { s with lineWidth := value }
  | .background => { s with background := value }
  | .gradientStart => { s with gradientStart := value }
  | .gradientEnd => { s with gradientEnd := value }
  | .gradientCount => { s with gradientCount := value }
  | .maxSymbols => { s with maxSymbols := value }
  | .jpegQuality => { s with jpegQuality := value }
  | .saveMetadata => { s with saveMetadata := value }

def setAll (s : Settings) (values : List (Field × Value)) : Settings :=
  values.foldl (fun s (field, value) => s.set field value) s

/-- Gives the named fields values; there have to be fields of all the names. -/
def ofFields (fields : Fields) : Result Settings := do
  let values ← fields.mapM fun (name, value) =>
    match Field.ofName? name with
    | some field => .ok (field, value)
    | none => .error .wrongSort
  return Settings.setAll {} values

def toFields (s : Settings) : Result Fields :=
  Field.all.mapM fun field => do
    let value := s.get field
    match field.reading with
    | .color => return (field.name, .list (← value.elements))
    | _ => return (field.name, value)

theorem get_set_self (s : Settings) (field : Field) (value : Value) :
    (s.set field value).get field = value := by
  cases field <;> rfl

theorem get_set_of_ne (s : Settings) {field other : Field} (value : Value) (h : other ≠ field) :
    (s.set field value).get other = s.get other := by
  cases field <;> cases other <;> first | rfl | exact absurd rfl h

end Settings
end TurtleCurves
