import TurtleCurves.Path
import TurtleCurves.Value.Convert

/-!
This module contains the placing of a drawing on a canvas. The drawing is scaled by one factor on both
axes, as large as fits between the margins, and centered; rows are counted from the top, so the vertical
axis is reversed.
-/

namespace TurtleCurves

/-- What of a canvas a drawing may fill. Distances are between the centers of pixels. -/
structure Frame (α : Type) where
  width : α
  height : α
  margin : α
deriving Repr, DecidableEq, Inhabited

structure Fit (α : Type) where
  scale : α
  offset : Point α
deriving Repr, DecidableEq, Inhabited

namespace Frame

variable {α : Type} [Coordinate α]

def ofInts (width height margin : Int) : Frame α where
  width := Coordinate.ofInt (width - 2 * margin - 1)
  height := Coordinate.ofInt (height - 2 * margin - 1)
  margin := Coordinate.ofInt margin

def available (length margin : Number) : Option Number := do
  (← length.sub? margin.double).sub? (.whole 1)

def ofValues (width height margin : Value) : Result (Frame Float) := do
  let reach (length : Value) : Result Number := do
    match available (← length.toNumber) (← margin.toNumber) with
    | some reach => return reach
    | none => .error .overflow
  let double (n : Number) : Result Float :=
    match n.toFloat? with
    | some x => .ok x
    | none => .error .overflow
  let acrossWidth ← reach width
  let acrossHeight ← reach height
  return ⟨← double acrossWidth, ← double acrossHeight, ← double (← margin.toNumber)⟩

end Frame

namespace Fit

variable {α : Type} [Coordinate α]

def scales (frame : Frame α) (box : Box α) : List α :=
  [(box.width, frame.width), (box.height, frame.height)].filterMap fun (side, available) =>
    if Coordinate.below (Coordinate.ofInt 0) side then some (available / side) else none

def smaller (a b : α) : α :=
  if Coordinate.below b a then b else a

/-- The scale at which a box fits into the frame; a single point is not scaled. -/
def scaleOf (frame : Frame α) (box : Box α) : α :=
  match scales frame box with
  | [] => Coordinate.ofInt 1
  | first :: rest => rest.foldl smaller first

def ofBox (frame : Frame α) (box : Box α) : Fit α :=
  let scale := scaleOf frame box
  let two : α := Coordinate.ofInt 2
  { scale
    offset :=
      ⟨frame.margin + (frame.width - box.width * scale) / two,
       frame.margin + (frame.height - box.height * scale) / two⟩ }

/-- Where a point of the box goes, in columns from the left and rows from the top. -/
def toPixel (fit : Fit α) (box : Box α) (lastRow : α) (p : Point α) : Point α :=
  ⟨(p.x - box.left) * fit.scale + fit.offset.x,
   lastRow - ((p.y - box.bottom) * fit.scale + fit.offset.y)⟩

end Fit

namespace Path

variable {α : Type} [Coordinate α]

def map (f : Point α → Point α) (path : Path α) : Path α :=
  ⟨path.polylines.map fun polyline => polyline.map f⟩

def toPixels (path : Path α) (frame : Frame α) (lastRow : α) : Result (Path α) := do
  let box ← path.bounds
  if path.polylines.any (·.isEmpty) then
    .error .badValue
  return path.map ((Fit.ofBox frame box).toPixel box lastRow)

end Path
end TurtleCurves
