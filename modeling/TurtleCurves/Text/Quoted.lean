import TurtleCurves.Text.Printable

/-!
This module contains the quoted form in which messages show a text: between single quotes, or between
double quotes if that avoids escaping a single one, with the backslash, the quote and everything that
has no printed form escaped.
-/

namespace TurtleCurves
namespace Text

def hex (width n : Nat) : String :=
  let digits := Nat.toDigits 16 n
  String.ofList (List.replicate (width - digits.length) '0' ++ digits)

/-- The quote mark of a text: double only if the text has single quotes and no double ones. -/
def quoteMark (cs : List Char) : Char :=
  if cs.contains '\'' && !cs.contains '"' then '"' else '\''

def escape (mark c : Char) : String :=
  if c = mark || c = '\\' then String.ofList ['\\', c]
  else if c = '\n' then "\\n"
  else if c = '\r' then "\\r"
  else if c = '\t' then "\\t"
  else if isPrintable c then c.toString
  else if c.toNat < 0x100 then "\\x" ++ hex 2 c.toNat
  else if c.toNat < 0x10000 then "\\u" ++ hex 4 c.toNat
  else "\\U" ++ hex 8 c.toNat

def quoted (text : String) : String :=
  let mark := quoteMark text.toList
  text.toList.foldl (fun out c => out ++ escape mark c) mark.toString |>.push mark

end Text
end TurtleCurves
