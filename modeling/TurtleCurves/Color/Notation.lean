import TurtleCurves.Color
import TurtleCurves.Value.Convert

/-!
This module contains the notation of colors in drawings when the color is a value of the settings. Its
first three channels are whole numbers of any size, and each takes the digits that it needs.
-/

namespace TurtleCurves
namespace Color

def channelText (channel : Int) : String :=
  if channel < 0 then "-" ++ Text.hex 1 channel.natAbs else Text.hex 2 channel.toNat

def leadingChannels (color : Value) : Result (List Value) :=
  match color with
  | .object _ => .error .wrongSort
  | color => return (← color.elements).take 3

def webOf (color : Value) : Result String := do
  match ← (← leadingChannels color).mapM Value.toInt with
  | [red, green, blue] => return "#" ++ channelText red ++ channelText green ++ channelText blue
  | _ => .error .badValue

theorem webOf_toValue (c : Color) : webOf c.toValue = .ok c.web := rfl

end Color
end TurtleCurves
