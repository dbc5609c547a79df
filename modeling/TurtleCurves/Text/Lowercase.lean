import TurtleCurves.Text.Blank
import TurtleCurves.Text.Lowercase.Table

/-!
This module contains the lower case of a text: each letter by its own form, the dotted capital I as
two characters, and the capital sigma by whether it ends a word.
-/

namespace TurtleCurves
namespace Text

/-- The lower-case form of a letter that does not depend on its place. -/
def lowerChar (c : Char) : Char :=
  match caseRuns.find? fun run =>
      run.first ≤ c.toNat && c.toNat ≤ run.last && (c.toNat - run.first) % run.step == 0 with
  | some run => Char.ofNat (c.toNat + run.shift).toNat
  | none => c

def meetsCased (cs : List Char) : Bool :=
  match cs.dropWhile fun c => inRanges caseIgnorableRanges c.toNat with
  | [] => false
  | c :: _ => inRanges casedRanges c.toNat

/-- The capital sigma, whose lower-case form at the end of a word is a letter of its own. -/
def capitalSigma : Char := Char.ofNat 0x3a3

/-- The lower-case form of `cs`, where `before` holds the characters in front of it, nearest first. -/
def lowerChars (before : List Char) : List Char → List Char
  | [] => []
  | c :: rest =>
    let form :=
      if c = capitalSigma then
        [Char.ofNat (if meetsCased before && !meetsCased rest then 0x3c2 else 0x3c3)]
      else if c = Char.ofNat 0x130 then
        ['i', Char.ofNat 0x307]
      else
        [lowerChar c]
    form ++ lowerChars (c :: before) rest

def lower (text : String) : String :=
  String.ofList (lowerChars [] text.toList)

end Text
end TurtleCurves
