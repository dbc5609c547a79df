import TurtleCurves.Text.Quoted

/-!
This module contains symbols: the letters of a curve's closed alphabet, and loose texts, which belong to
no alphabet.
-/

namespace TurtleCurves

inductive Symbol
  | letter (alphabet name value : String)
  | loose (text : String)
deriving Repr, DecidableEq, Inhabited

namespace Symbol

def value : Symbol → String
  | letter _ _ value => value
  | loose text => text

def shown : Symbol → String
  | letter alphabet name value => "<" ++ alphabet ++ "." ++ name ++ ": " ++ Text.quoted value ++ ">"
  | loose text => Text.quoted text

def shownList (symbols : List Symbol) : String :=
  "[" ++ ", ".intercalate (symbols.map shown) ++ "]"

def textOf (symbols : List Symbol) : String :=
  String.join (symbols.map value)

end Symbol
end TurtleCurves
