import TurtleCurves.Text.Quoted
import TurtleCurves.Value

/-!
This module contains colors: a byte for each of the channels red, green, blue and alpha. Computations on
colors work on the channels one by one.
-/

namespace TurtleCurves

structure Channels (α : Type) where
  red : α
  green : α
  blue : α
  alpha : α
deriving Repr, DecidableEq, Inhabited

namespace Channels

variable {α β γ : Type}

def map (f : α → β) (c : Channels α) : Channels β :=
  ⟨f c.red, f c.green, f c.blue, f c.alpha⟩

def zipWith (f : α → β → γ) (a : Channels α) (b : Channels β) : Channels γ :=
  ⟨f a.red b.red, f a.green b.green, f a.blue b.blue, f a.alpha b.alpha⟩

def toList (c : Channels α) : List α :=
  [c.red, c.green, c.blue, c.alpha]

def ofList? : List α → Option (Channels α)
  | [red, green, blue, alpha] => some ⟨red, green, blue, alpha⟩
  | _ => none

end Channels

abbrev Color := Channels UInt8

namespace Color

def byteText (b : UInt8) : String :=
  Text.hex 2 b.toNat

def shown (c : Color) : String :=
  String.join (c.toList.map byteText)

/-- A color as drawings name it, which leaves out how opaque it is. -/
def web (c : Color) : String :=
  "#" ++ byteText c.red ++ byteText c.green ++ byteText c.blue

def toValue (c : Color) : Value :=
  .list (c.toList.map fun b => .int b.toNat)

end Color
end TurtleCurves
