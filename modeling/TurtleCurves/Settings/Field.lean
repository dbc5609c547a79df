/-!
This module contains the fields of the render settings by name, in their order, together with the sort of
value that each is read as when it comes as a text.
-/

namespace TurtleCurves
namespace Settings

inductive Field
  | width
  | height
  | margin
  | lineWidth
  | background
  | gradientStart
  | gradientEnd
  | gradientCount
  | maxSymbols
  | jpegQuality
  | saveMetadata
deriving Repr, DecidableEq, Inhabited

inductive Reading
  | whole
  | color
  | flag
deriving Repr, DecidableEq

namespace Field

def all : List Field :=
  [width, height, margin, lineWidth, background, gradientStart, gradientEnd, gradientCount, maxSymbols,
   jpegQuality, saveMetadata]

def name : Field → String
  | width => "width"
  | height => "height"
  | margin => "margin"
  | lineWidth => "line_width"
  | background => "background"
  | gradientStart => "gradient_start"
  | gradientEnd => "gradient_end"
  | gradientCount => "gradient_count"
  | maxSymbols => "max_symbols"
  | jpegQuality => "jpeg_quality"
  | saveMetadata => "save_metadata"

def ofName? (name : String) : Option Field :=
  all.find? fun field => field.name = name

def reading : Field → Reading
  | background | gradientStart | gradientEnd => .color
  | saveMetadata => .flag
  | _ => .whole

def colors : List Field :=
  all.filter fun field => field.reading = .color

theorem mem_all (field : Field) : field ∈ all := by
  cases field <;> decide

theorem ofName?_name (field : Field) : ofName? field.name = some field := by
  cases field <;> decide

end Field
end Settings
end TurtleCurves
