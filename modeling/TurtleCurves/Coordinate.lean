import TurtleCurves.Binary

/-!
This module contains what paths are measured in. A drawing is placed on a canvas with doubles; the same
computation on rational numbers is exact.
-/

namespace TurtleCurves

/-- The arithmetic that placing a drawing needs. -/
class Coordinate (α : Type) extends Add α, Sub α, Mul α, Div α where
  ofInt : Int → α
  /-- The smaller of two coordinates; an undefined one counts as smallest. -/
  lesser : α → α → α
  /-- The larger of two coordinates; an undefined one counts as largest. -/
  greater : α → α → α
  below : α → α → Bool

instance : Coordinate Float where
  ofInt := Float.ofInt
  lesser a b := if a.isNaN then a else if b.isNaN then b else if b < a then b else a
  greater a b := if a.isNaN then a else if b.isNaN then b else if a < b then b else a
  below a b := a < b

instance : Coordinate Rat where
  ofInt n := n
  lesser a b := if b < a then b else a
  greater a b := if a < b then b else a
  below a b := a < b

structure Point (α : Type) where
  x : α
  y : α
deriving Repr, DecidableEq, Inhabited

structure Box (α : Type) where
  left : α
  right : α
  bottom : α
  top : α
deriving Repr, DecidableEq, Inhabited

namespace Box

variable {α : Type} [Coordinate α]

def around (p : Point α) : Box α :=
  ⟨p.x, p.x, p.y, p.y⟩

def cover (box : Box α) (p : Point α) : Box α :=
  ⟨Coordinate.lesser box.left p.x, Coordinate.greater box.right p.x,
   Coordinate.lesser box.bottom p.y, Coordinate.greater box.top p.y⟩

def width (box : Box α) : α :=
  box.right - box.left

def height (box : Box α) : α :=
  box.top - box.bottom

end Box
end TurtleCurves
