import TurtleCurves.Decimal.Shortest
import TurtleCurves.Text.Quoted
import TurtleCurves.Value

/-!
This module contains the writer of the data format JSON. It writes nothing but printable ASCII, the rest
of a text as escapes; doubles have their shortest decimal; an object keeps the order of its fields.
-/

namespace TurtleCurves
namespace Json

inductive Layout
  /-- Nowhere; a space follows each comma. -/
  | oneLine
  /-- After each bracket and comma, with one `unit` in front per level. -/
  | lines (unit : String)
deriving Repr, DecidableEq

def unitEscape (unit : Nat) : String :=
  "\\u" ++ Text.hex 4 unit

def escape (c : Char) : String :=
  if c = '"' then "\\\""
  else if c = '\\' then "\\\\"
  else if c = '\n' then "\\n"
  else if c = '\r' then "\\r"
  else if c = '\t' then "\\t"
  else if c = '\x08' then "\\b"
  else if c = '\x0c' then "\\f"
  else if 0x20 ≤ c.toNat && c.toNat < 0x7f then c.toString
  else if c.toNat < 0x10000 then unitEscape c.toNat
  else
    let offset := c.toNat - 0x10000
    unitEscape (0xd800 + offset / 0x400) ++ unitEscape (0xdc00 + offset % 0x400)

def writeText (s : String) : String :=
  (s.toList.foldl (fun out c => out ++ escape c) "\"").push '"'

def writeFloat (x : Float) : String :=
  match Binary.view x with
  | .undefined => "NaN"
  | .infinite negative => if negative then "-Infinity" else "Infinity"
  | .finite _ => Decimal.shown x

namespace Layout

def ofValue? : Value → Option Layout
  | .null => some oneLine
  | .bool b => some (lines (if b then " " else ""))
  | .int n => some (lines (String.ofList (List.replicate n.toNat ' ')))
  | .text unit => some (lines unit)
  | _ => none

def lineBreak (layout : Layout) (depth : Nat) : String :=
  match layout with
  | oneLine => ""
  | lines unit => "\n" ++ String.join (List.replicate depth unit)

def separator (layout : Layout) (depth : Nat) : String :=
  match layout with
  | oneLine => ", "
  | lines _ => "," ++ layout.lineBreak depth

def enclose (layout : Layout) (depth : Nat) (opening closing : String) (entries : List String) :
    String :=
  if entries.isEmpty then opening ++ closing
  else
    opening ++ layout.lineBreak (depth + 1) ++ (layout.separator (depth + 1)).intercalate entries ++
      layout.lineBreak depth ++ closing

end Layout

mutual

def writeAt (layout : Layout) (depth : Nat) : Value → String
  | .null => "null"
  | .bool b => if b then "true" else "false"
  | .int n => toString n
  | .float x => writeFloat x
  | .text s => writeText s
  | .list items => layout.enclose depth "[" "]" (writeItems layout (depth + 1) items)
  | .object fields => layout.enclose depth "\x7b" "\x7d" (writeFields layout (depth + 1) fields)

def writeItems (layout : Layout) (depth : Nat) : List Value → List String
  | [] => []
  | item :: rest => writeAt layout depth item :: writeItems layout depth rest

def writeFields (layout : Layout) (depth : Nat) : List (String × Value) → List String
  | [] => []
  | (name, value) :: rest =>
    (writeText name ++ ": " ++ writeAt layout depth value) :: writeFields layout depth rest

end

def write (layout : Layout) (value : Value) : String :=
  writeAt layout 0 value

end Json
end TurtleCurves
