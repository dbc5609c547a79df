import TurtleCurves.Color.Gradient
import TurtleCurves.Drawing.Canvas
import TurtleCurves.Drawing.Fit
import TurtleCurves.Settings

/-!
This module contains the drawing of paths on canvases. Each segment is a line of its own color, drawn
over what was there before. Which pixels a line takes is up to a brush; how brushes draw lines that are wider
than a pixel is left open.
-/

namespace TurtleCurves

/-- A line that is drawn on a canvas. Its ends are places between the pixels, its width is in pixels. -/
structure Stroke where
  start : Point Float
  stop : Point Float
  color : Color
  width : Int
deriving Repr

/-- What draws lines: the pixels of a line of some width from one pixel to another. -/
structure Brush where
  line : Int → Pixel → Pixel → List Pixel
  /-- A line that is not wider than a pixel takes one pixel for each step. -/
  line_of_le_one : ∀ {width : Int} (p q : Pixel), width ≤ 1 → line width p q = p.lineTo q

structure Raster where
  ground : Canvas
  strokes : List Stroke
deriving Repr

/-- The pixel in which a point lies, if it has coordinates. Points lose their fraction toward zero. -/
def Pixel.ofPoint? (p : Point Float) : Option Pixel :=
  match Binary.view p.x, Binary.view p.y with
  | .finite x, .finite y => some ⟨x.truncate, y.truncate⟩
  | _, _ => none

namespace Brush

def fine : Brush :=
  ⟨fun _ => Pixel.lineTo, fun _ _ _ => rfl⟩

def trace (brush : Brush) (s : Stroke) : List Pixel :=
  match Pixel.ofPoint? s.start, Pixel.ofPoint? s.stop with
  | some start, some stop => brush.line s.width start stop
  | _, _ => []

end Brush

namespace Canvas

def stroke (brush : Brush) (c : Canvas) (s : Stroke) : Canvas :=
  c.plotAll s.color (brush.trace s)

def readLineWidth (width : Value) : Result Int :=
  match width with
  | .bool b => .ok b.toInt
  | .int n => if n < -sideLimit ∨ sideLimit ≤ n then .error .overflow else .ok n
  | _ => .error .wrongSort

end Canvas

namespace Path

def strokes (path : Path Float) (colors : Array Color) (width : Int) : List Stroke :=
  List.zipWith (fun (start, stop) color => ⟨start, stop, color, width⟩) path.segments colors.toList

def strokesOn (path : Path Float) (ground : Canvas) (settings : Settings) : Result (List Stroke) := do
  let gradient ← Gradient.read settings.gradientStart settings.gradientEnd settings.gradientCount
  let colors := gradient.segmentColors path.segmentCount
  let frame ← Frame.ofValues settings.width settings.height settings.margin
  let pixels ← path.toPixels frame (Float.ofInt (ground.height - 1))
  return pixels.strokes colors (← Canvas.readLineWidth settings.lineWidth)

end Path

namespace Raster

/-- The image that shows a path; without segments it stays blank. -/
def ofPath (path : Path Float) (settings : Settings) : Result Raster := do
  let ground ← Canvas.ofValues settings.width settings.height settings.background
  if path.segmentCount = 0 then return ⟨ground, []⟩
  return ⟨ground, ← path.strokesOn ground settings⟩

def canvas (brush : Brush) (r : Raster) : Canvas :=
  r.strokes.foldl (Canvas.stroke brush) r.ground

def picture (r : Raster) : Picture :=
  ⟨.colorAlpha, r.ground.width, r.ground.height⟩

end Raster
end TurtleCurves
