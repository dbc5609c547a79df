import TurtleCurves.Color
import TurtleCurves.Drawing.Line
import TurtleCurves.Store
import TurtleCurves.Value.Convert

/-!
This module contains canvases: grids of pixels with a color each. What is drawn beyond the edges of a
canvas is lost.
-/

namespace TurtleCurves

structure Canvas where
  width : Nat
  height : Nat
  pixels : Array Color
  size_pixels : pixels.size = width * height
deriving Repr

namespace Canvas

def filled (width height : Nat) (color : Color) : Canvas :=
  ⟨width, height, Array.replicate (width * height) color, by simp⟩

def indexOf? (c : Canvas) (p : Pixel) : Option Nat :=
  if 0 ≤ p.column ∧ p.column < c.width ∧ 0 ≤ p.row ∧ p.row < c.height then
    some (p.row.toNat * c.width + p.column.toNat)
  else none

def plot (c : Canvas) (color : Color) (p : Pixel) : Canvas :=
  match c.indexOf? p with
  | some i => { c with pixels := c.pixels.setIfInBounds i color, size_pixels := by simp [c.size_pixels] }
  | none => c

def plotAll (c : Canvas) (color : Color) (pixels : List Pixel) : Canvas :=
  pixels.foldl (fun c p => c.plot color p) c

def row (c : Canvas) (i : Nat) : List Color :=
  (c.pixels.extract (i * c.width) ((i + 1) * c.width)).toList

def rows (c : Canvas) : List (List Color) :=
  (List.range c.height).map c.row

def sideLimit : Int := 1 <<< 31

def readSide (length : Value) : Result Nat :=
  match length with
  | .bool b => .ok b.toNat
  | .int n => if n < sideLimit then .ok n.toNat else .error .overflow
  | _ => .error .wrongSort

def readChannel (channel : Value) : Result UInt8 :=
  match channel with
  | .bool b => .ok (UInt8.ofNat b.toNat)
  | .int n =>
    if n < -sideLimit ∨ sideLimit ≤ n then .error .overflow
    else .ok (UInt8.ofNat (min n.toNat 255))
  | _ => .error .wrongSort

/-- The color whose bytes make up a number, red being the lowest one. -/
def unpackColor (n : Int) : Color :=
  let byte (shift : Nat) := UInt8.ofNat ((n >>> shift) % 256).toNat
  ⟨byte 0, byte 8, byte 16, byte 24⟩

def packedLimit : Int := 1 <<< 63

def readColor (channels : List Value) : Result Color :=
  match channels with
  | [.bool b] => .ok (unpackColor b.toInt)
  | [.int n] =>
    if n < -packedLimit ∨ packedLimit ≤ n then .error .overflow else .ok (unpackColor n)
  | [red, green, blue] =>
    return ⟨← readChannel red, ← readChannel green, ← readChannel blue, 255⟩
  | [red, green, blue, alpha] =>
    return ⟨← readChannel red, ← readChannel green, ← readChannel blue, ← readChannel alpha⟩
  | _ => .error .wrongSort

def ofValues (width height background : Value) : Result Canvas := do
  let channels ← background.elements
  if (← width.toNumber).lt (.whole 0) then
    .error .badValue
  if (← height.toNumber).lt (.whole 0) then
    .error .badValue
  return filled (← readSide width) (← readSide height) (← readColor channels)

end Canvas
end TurtleCurves
