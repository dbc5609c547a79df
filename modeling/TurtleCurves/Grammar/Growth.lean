import TurtleCurves.Grammar.Basic

/-!
This module contains the prediction of how long an expansion gets. It follows only how often each letter
occurs: a pass turns the letter counts into new ones by the growth matrix, whose rows count the letters
in each image.
-/

namespace TurtleCurves
namespace Grammar

def letterCounts (g : Grammar) (word : List Symbol) : List Nat :=
  g.alphabet.map fun s => word.count s

def growth (g : Grammar) : List (List Nat) :=
  g.alphabet.map fun s => g.letterCounts (g.image s)

/-- Adds the rows of a matrix, each taken as often as the count at its place says. -/
def weightedSum (width : Nat) (counts : List Nat) (rows : List (List Nat)) : List Nat :=
  (counts.zip rows).foldl
    (fun sum (count, row) => List.zipWith (fun s entry => s + count * entry) sum row)
    (List.replicate width 0)

def countsAfter (width : Nat) (rows : List (List Nat)) : Nat → List Nat → List Nat
  | 0, counts => counts
  | passes + 1, counts => countsAfter width rows passes (weightedSum width counts rows)

def predictedLength (g : Grammar) (passes : Nat) : Nat :=
  (countsAfter g.alphabet.length g.growth passes (g.letterCounts g.seed)).foldr (· + ·) 0

end Grammar
end TurtleCurves
