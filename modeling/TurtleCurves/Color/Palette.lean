import TurtleCurves.Color

/-!
This module contains the named colors: some in bytes, for images, and some with channels between zero
and one, for drawing with doubles.
-/

namespace TurtleCurves
namespace Palette

def nightBlue : Color := ⟨0, 0, 48, 255⟩

def black : Color := ⟨0, 0, 0, 255⟩

def gray : Color := ⟨128, 128, 128, 255⟩

def white : Color := ⟨255, 255, 255, 255⟩

def blackLight : Channels Float := ⟨0, 0, 0, 1⟩

def grayLight : Channels Float := ⟨0.5, 0.5, 0.5, 1⟩

def whiteLight : Channels Float := ⟨1, 1, 1, 1⟩

end Palette
end TurtleCurves
