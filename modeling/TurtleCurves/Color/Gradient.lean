import TurtleCurves.Color
import TurtleCurves.Value.Convert
import TurtleCurves.Value.Shape

/-!
This module contains linear gradients. The colors of a gradient lie at equal steps between two ends, are
computed in doubles and lose their fraction at last; the last color is its end exactly. The segments of
a path take the colors in drawing order, spread evenly from the first color to the last.
-/

namespace TurtleCurves

structure Gradient where
  first : Channels Float
  last : Channels Float
  count : Nat
  two_le_count : 2 ≤ count

namespace Gradient

def steps (g : Gradient) : Float :=
  Float.ofNat (g.count - 1)

def rise (g : Gradient) : Channels Float :=
  g.first.zipWith (fun a b => b - a) g.last

def step (g : Gradient) : Channels Float :=
  g.rise.map (· / g.steps)

/-- Whether a single step is nothing in some channel. Then no channel is computed from its step. -/
def isFlat (g : Gradient) : Bool :=
  g.step.toList.any (· == 0)

def position (g : Gradient) (index : Nat) : Channels Float :=
  let i := Float.ofNat index
  if index + 1 = g.count then g.last
  else if g.isFlat then g.rise.zipWith (fun rise start => i / g.steps * rise + start) g.first
  else g.step.zipWith (fun step start => i * step + start) g.first

def toByte (x : Float) : UInt8 :=
  match Binary.view x with
  | .finite b => UInt8.ofNat (b.floor % 256).toNat
  | _ => 0

def color (g : Gradient) (index : Nat) : Color :=
  (g.position index).map toByte

def colors (g : Gradient) : List Color :=
  (List.range g.count).map g.color

def wordBits : Nat := 64

/--
The index of the color of one of some segments, computed in words of some bits: a product that does not fit
in a word turns over to a negative one. A single segment has the first color.
-/
def indexIn (bits count segments segment : Nat) : Int :=
  Int.bmod (segment * (count - 1) : Nat) (Nat.pow 2 bits) / ((segments : Int) - 1)

/-- The color of a segment in its gradient. A negative index counts from the end. -/
def indexOf (g : Gradient) (segments segment : Nat) : Nat :=
  (indexIn wordBits g.count segments segment % g.count).toNat

def segmentColors (g : Gradient) (segments : Nat) : Array Color :=
  Array.ofFn (n := segments) fun segment => g.color (g.indexOf segments segment)

def maxChannel : Nat := 255

def readEnd (side : GradientEnd) (color : Value) : Result (Channels Float) := do
  let some shape := color.shape? | .error .badValue
  let channels ← color.elements
  if shape ≠ [4] then
    .error (.violated (.channelCount side channels))
  let numbers ← channels.mapM Value.toNumber
  if numbers.any fun n => n.lt (.whole 0) || (Number.whole maxChannel).lt n then
    .error (.violated (.channelRange side))
  match (numbers.mapM Number.toFloat?).bind Channels.ofList? with
  | some channels => return channels
  | none => .error .overflow

def maxCount : Nat := 1 <<< 63

def readCount (count : Value) : Result { n : Nat // 2 ≤ n } :=
  match count with
  | .int n =>
    if h : 2 ≤ n.toNat then
      if (Number.whole n).toFloat?.isNone then .error .overflow
      else if maxCount < n.toNat then .error .badValue
      else .ok ⟨n.toNat, h⟩
    else .error (.violated (.fewColors count))
  | _ => .error .wrongSort

/-- Reads a gradient. The size of the count is looked at first, and whether it is whole at last. -/
def read (first last count : Value) : Result Gradient := do
  if (← count.toNumber).lt (.whole 2) then
    .error (.violated (.fewColors count))
  let first ← readEnd .first first
  let last ← readEnd .last last
  let ⟨count, two_le_count⟩ ← readCount count
  return { first, last, count, two_le_count }

theorem length_colors (g : Gradient) : g.colors.length = g.count := by
  simp [colors]

theorem size_segmentColors (g : Gradient) (segments : Nat) :
    (g.segmentColors segments).size = segments := by
  simp [segmentColors]

theorem of_getElem?_segmentColors {g : Gradient} {segments segment : Nat} {color : Color}
    (h : (g.segmentColors segments)[segment]? = some color) :
    g.color (g.indexOf segments segment) = color := by
  obtain ⟨hlt, hcolor⟩ := Array.getElem?_eq_some_iff.1 h
  rw [← hcolor]
  simp [segmentColors]

theorem position_last (g : Gradient) : g.position (g.count - 1) = g.last := by
  have := g.two_le_count
  simp [position, show g.count - 1 + 1 = g.count by omega]

end Gradient
end TurtleCurves
