/-!
This module contains the characters that count as blank at either end of a setting's text, those of them
that may stand around a number, and the function that strips them.
-/

namespace TurtleCurves
namespace Text

def blankRanges : List (Nat × Nat) :=
  [(0x9, 0xd), (0x1c, 0x20), (0x85, 0x85), (0xa0, 0xa0), (0x1680, 0x1680), (0x2000, 0x200a),
   (0x2028, 0x2029), (0x202f, 0x202f), (0x205f, 0x205f), (0x3000, 0x3000)]

def inRanges (ranges : List (Nat × Nat)) (code : Nat) : Bool :=
  ranges.any fun (first, last) => first ≤ code && code ≤ last

/-- A blank is a space, tab, line or paragraph break, or one of the four separator controls. -/
def isBlank (c : Char) : Bool :=
  inRanges blankRanges c.toNat

def separatorRange : Nat × Nat := (0x1c, 0x1f)

def isPadding (c : Char) : Bool :=
  isBlank c && !inRanges [separatorRange] c.toNat

def strip (blank : Char → Bool) (cs : List Char) : List Char :=
  ((cs.dropWhile blank).reverse.dropWhile blank).reverse

end Text
end TurtleCurves
