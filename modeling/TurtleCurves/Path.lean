import TurtleCurves.Coordinate
import TurtleCurves.Fault

/-!
This module contains paths: polylines in the order in which they were drawn. A path grows at its end
only, by beginning a new polyline or by extending the last one.
-/

namespace TurtleCurves

structure Path (α : Type) where
  polylines : Array (Array (Point α)) := #[]
deriving Repr, DecidableEq, Inhabited

namespace Path

variable {α : Type}

def empty : Path α := {}

/-- Begins a new polyline at a point; a last polyline that was begun and not used is dropped. -/
def beginAt (path : Path α) (p : Point α) : Path α :=
  match path.polylines.back? with
  | some last =>
    if last.size < 2 then ⟨path.polylines.pop.push #[p]⟩ else ⟨path.polylines.push #[p]⟩
  | none => ⟨path.polylines.push #[p]⟩

/-- Extends the last polyline to a point; without one nothing changes. -/
def extendTo (path : Path α) (p : Point α) : Path α :=
  ⟨path.polylines.modify (path.polylines.size - 1) fun last => last.push p⟩

def tryExtendTo (path : Path α) (p : Point α) : Result (Path α) :=
  if path.polylines.isEmpty then .error .noStart else .ok (path.extendTo p)

def segmentsOf (polyline : Array (Point α)) : List (Point α × Point α) :=
  polyline.toList.zip polyline.toList.tail

def segments (path : Path α) : List (Point α × Point α) :=
  path.polylines.toList.flatMap segmentsOf

def segmentCount (path : Path α) : Nat :=
  path.polylines.toList.foldr (fun polyline count => polyline.size - 1 + count) 0

def start? (path : Path α) : Option (Point α) :=
  path.polylines[0]?.bind fun first => first[0]?

def end? (path : Path α) : Option (Point α) :=
  path.polylines.back?.bind Array.back?

def vertices (path : Path α) : Array (Point α) :=
  path.polylines.flatten

def shown (path : Path α) : String :=
  "TurtlePath(polylines=" ++ toString path.polylines.size ++ ", segments=" ++
    toString path.segmentCount ++ ")"

section Bounds

variable [Coordinate α]

def bounds? (path : Path α) : Option (Box α) :=
  match path.vertices.toList with
  | [] => none
  | first :: rest => some (rest.foldl Box.cover (Box.around first))

def bounds (path : Path α) : Result (Box α) :=
  match path.bounds? with
  | some box => .ok box
  | none => .error .noVertices

end Bounds

theorem length_segmentsOf (polyline : Array (Point α)) :
    (segmentsOf polyline).length = polyline.size - 1 := by
  simp [segmentsOf]

theorem segmentCount_eq (path : Path α) : path.segmentCount = path.segments.length := by
  unfold segmentCount segments
  induction path.polylines.toList with
  | nil => rfl
  | cons polyline rest ih => simp [ih, length_segmentsOf]

end Path
end TurtleCurves
