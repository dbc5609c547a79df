import TurtleCurves.Fault
import TurtleCurves.Value.Display

/-!
This module contains the wording of the faults. A fault of an operation on plain values has none.
-/

namespace TurtleCurves

def CountFault.message : CountFault → String
  | notInteger value => "iterations must be an integer, got " ++ value.shown
  | negative value => "iterations must be >= 0, got " ++ toString value

def GrammarFault.message : GrammarFault → String
  | strayKey symbol alphabet =>
    "Production for " ++ symbol.shown ++ " is outside alphabet " ++ alphabet
  | strayImage symbol alphabet stray =>
    "Production for " ++ symbol.shown ++ " yields symbols outside " ++ alphabet ++ ": " ++
      Symbol.shownList stray
  | straySeed alphabet stray =>
    "Axiom has symbols outside " ++ alphabet ++ ": " ++ Symbol.shownList stray

def Refusal.message : Refusal → String
  | count fault => fault.message
  | declined reason => reason
  | grammar fault => fault.message

def GradientEnd.name : GradientEnd → String
  | first => "first"
  | last => "last"

def Violation.message : Violation → String
  | count fault => fault.message
  | fewColors value => "Count must be 2 or more: " ++ value.plain
  | channelCount color channels =>
    color.name ++ " must have 4 channels, got " ++ Value.shownTuple channels
  | channelRange color => color.name ++ " channels must be between 0 and 255"
  | tooManySymbols curve depth predicted limit =>
    curve ++ " at " ++ toString depth ++ " iterations expands to " ++ toString predicted ++
      " symbols, above max_symbols=" ++ limit.plain

def SettingsFault.message : SettingsFault → String
  | size => "Width and height must be positive"
  | negativeMargin => "margin must be >= 0"
  | noRoom => "margin leaves no room to draw"
  | lineWidth => "line_width must be >= 1"
  | color setting => setting ++ " must be 4 channels between 0 and 255"
  | gradientCount => "gradient_count must be >= 2"
  | maxSymbols => "max_symbols must be positive"
  | jpegQuality => "jpeg_quality must be between 1 and 100"

def Fault.message? : Fault → Option String
  | refused refusal => some refusal.message
  | violated violation => some violation.message
  | transition before after =>
    some ("Invalid engine transition " ++ before.name ++ " -> " ++ after.name)
  | notDrawable =>
    some "fractal must implement LindenmayerSystem and LindenmayerSystemDrawingParameters"
  | undrawnSymbol symbol => some symbol.shown
  | noStart => some "add_point() called before start_new()"
  | noVertices => some "Path has no vertices"
  | degenerateBounds => some "Degenerate path bounds; nothing to draw"
  | unknownCurve name known =>
    some ("Unknown fractal type '" ++ name ++ "'. Available: " ++ ", ".intercalate known)
  | notCurve => some "Fractal class must inherit from LindenmayerFractal"
  | settings fault => some fault.message
  | unknownSettings names => some ("Unknown render settings: " ++ ", ".intercalate names)
  | badVariable setting raw => some ("Invalid value for " ++ setting ++ ": " ++ Text.quoted raw)
  | invalidJson path => some ("Invalid JSON in " ++ path)
  | notObject path => some ("Configuration in " ++ path ++ " must be a JSON object")
  | sectionNotObject => some "'render' section must be an object"
  | unsupportedFormat suffix supported =>
    some ("Unsupported format '" ++ suffix ++ "'. Supported: " ++ ", ".intercalate supported)
  | unknownPhase | watcher | noRule | wrongSort | badValue | missingOperation | missingField
  | overflow | divisionByZero | malformedJson | badEncoding | noFile | isDirectory | fileInTheWay
  | notDirectory | notImage => none

end TurtleCurves
