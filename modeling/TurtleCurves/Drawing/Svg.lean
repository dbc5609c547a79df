import TurtleCurves.Color.Gradient
import TurtleCurves.Color.Notation
import TurtleCurves.Decimal.Compact
import TurtleCurves.Drawing.Fit
import TurtleCurves.Settings
import TurtleCurves.Store

/-!
This module contains drawings in the format SVG. Coordinates stay in the units of the turtle, and a
transformation turns the vertical axis around. Each polyline has a single color, that of its first
segment.
-/

namespace TurtleCurves
namespace Svg

def escapeChar : Char → List Char
  | '&' => "&amp;".toList
  | '<' => "&lt;".toList
  | '>' => "&gt;".toList
  | c => [c]

def escape (title : String) : String :=
  String.ofList (title.toList.flatMap escapeChar)

structure View where
  left : Float
  bottom : Float
  width : Float
  height : Float
deriving Repr

namespace View

def around (box : Box Float) (room : Float) : Result View :=
  let width := box.width + 2 * room
  let height := box.height + 2 * room
  if 0 < width && 0 < height && (width * height).isFinite then
    .ok ⟨box.left - room, box.bottom - room, width, height⟩
  else .error .degenerateBounds

end View

def divide (a b : Float) : Result Float :=
  if b == 0 then .error .divisionByZero else .ok (a / b)

def double (v : Value) : Result Float := do
  match (← v.toNumber).toFloat? with
  | some x => return x
  | none => .error .overflow

def writer (precision : Value) : Result (Float → String) :=
  match Decimal.places? precision with
  | some places => .ok (Decimal.compact places)
  | none => .error .badValue

def titleLines (title : Value) : Result (List String) :=
  if title.isSet then
    match title with
    | .text title => .ok ["  <title>" ++ escape title ++ "</title>"]
    | _ => .error .missingOperation
  else .ok []

/-- The polylines with segments, each with the number of segments before it. -/
def drawn (before : Nat) : List (Array (Point Float)) → List (Nat × Array (Point Float))
  | [] => []
  | polyline :: rest =>
    if polyline.size < 2 then drawn before rest
    else (before, polyline) :: drawn (before + (polyline.size - 1)) rest

def polylineLine (write : Float → String) (strokeWidth : String) (color : Color)
    (polyline : Array (Point Float)) : String :=
  let points := polyline.toList.map fun p => write p.x ++ "," ++ write p.y
  "    <polyline points=\"" ++ " ".intercalate points ++ "\" stroke=\"" ++ color.web ++
    "\" stroke-width=\"" ++ strokeWidth ++
    "\" fill=\"none\" stroke-linecap=\"round\" stroke-linejoin=\"round\" />"

def header : String := "<?xml version=\"1.0\" encoding=\"UTF-8\"?>"

def lines (path : Path Float) (settings : Settings) (title precision : Value) : Result (List String) := do
  let box ← path.bounds
  let frame ← Frame.ofValues settings.width settings.height settings.margin
  let scale := Fit.scaleOf frame box
  let view ← View.around box (← divide frame.margin scale)
  let write ← writer precision
  let strokeWidth := write (← divide (← double settings.lineWidth) scale)
  let gradient ← Gradient.read settings.gradientStart settings.gradientEnd settings.gradientCount
  let titleLines ← titleLines title
  let background ← Color.webOf settings.background
  let left := write view.left
  let bottom := write view.bottom
  let width := write view.width
  let height := write view.height
  let polylines := (drawn 0 path.polylines.toList).map fun (before, polyline) =>
    let color := gradient.color (gradient.indexOf path.segmentCount before)
    polylineLine write strokeWidth color polyline
  let opening :=
    "<svg xmlns=\"http://www.w3.org/2000/svg\" version=\"1.1\" viewBox=\"" ++ left ++ " " ++ bottom ++
      " " ++ width ++ " " ++ height ++ "\" width=\"" ++ settings.width.plain ++ "\" height=\"" ++
      settings.height.plain ++ "\">"
  let rectangle :=
    "  <rect x=\"" ++ left ++ "\" y=\"" ++ bottom ++ "\" width=\"" ++ width ++ "\" height=\"" ++
      height ++ "\" fill=\"" ++ background ++ "\" />"
  let group :=
    "  <g transform=\"translate(0," ++ write (view.bottom + (view.bottom + view.height)) ++
      ") scale(1,-1)\">"
  return header :: opening :: titleLines ++ rectangle :: group :: polylines ++ ["  </g>", "</svg>"]

def usualPrecision : Nat := 6

def save (path : Path Float) (name : FileName) (settings : Settings) (title precision : Value) :
    Task Unit := do
  let lines ← Task.ofResult (lines path settings title precision)
  Store.makeParents name
  Store.write name (.text ("\n".intercalate lines ++ "\n"))

end Svg
end TurtleCurves
