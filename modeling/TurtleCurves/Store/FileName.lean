import TurtleCurves.Text.Lowercase

/-!
This module contains the names of files: the steps that lead to a file from where one is, and the suffix
of the last step, which says what sort of file it is.
-/

namespace TurtleCurves

structure FileName where
  steps : List String
  rooted : Bool := false
deriving Repr, DecidableEq, Inhabited

namespace FileName

/-- Reads a name. Steps that lead nowhere are dropped. -/
def ofText (text : String) : FileName :=
  { steps := (text.splitOn "/").filter fun step => step ≠ "" ∧ step ≠ "."
    rooted := text.startsWith "/" }

def shown (name : FileName) : String :=
  let joined := "/".intercalate name.steps
  if name.rooted then "/" ++ joined else if name.steps = [] then "." else joined

def last (name : FileName) : String :=
  name.steps.getLast?.getD ""

def parent (name : FileName) : FileName :=
  { name with steps := name.steps.dropLast }

/-- A name cut at its last dot, unless that is at either end. -/
def cut (step : String) : String × String :=
  let reversed := step.toList.reverse
  let suffix := (reversed.takeWhile (· ≠ '.')).reverse
  let stem := (reversed.drop (suffix.length + 1)).reverse
  if suffix = [] ∨ stem = [] then (step, "") else (String.ofList stem, String.ofList ('.' :: suffix))

def suffix (name : FileName) : String :=
  Text.lower (cut name.last).2

def withSuffix (name : FileName) (suffix : String) : FileName :=
  { name with steps := name.steps.dropLast ++ [(cut name.last).1 ++ suffix] }

/-- The directories that lead to a file, from the outermost on. -/
def ancestors (name : FileName) : List FileName :=
  (List.range (name.steps.length - 1)).map fun depth => { name with steps := name.steps.take (depth + 1) }

end FileName
end TurtleCurves
