import TurtleCurves.Decimal.Reading
import TurtleCurves.Fault
import TurtleCurves.Text.Integer

/-!
This module contains the reader of the data format JSON. Whole numbers keep their size, a number with a
fraction or a power of ten is a double, and the names of the undefined and the infinite doubles are
accepted. Of two fields with one name the later gives the value.
-/

namespace TurtleCurves
namespace Json

def isSpace (c : Char) : Bool :=
  c = ' ' || c = '\t' || c = '\n' || c = '\r'

def skipSpace (cs : List Char) : List Char :=
  cs.dropWhile isSpace

def hexValue? (c : Char) : Option Nat :=
  if c.isDigit then some (c.toNat - '0'.toNat)
  else if 'a' ≤ c ∧ c ≤ 'f' then some (c.toNat - 'a'.toNat + 10)
  else if 'A' ≤ c ∧ c ≤ 'F' then some (c.toNat - 'A'.toNat + 10)
  else none

def unit? (a b c d : Char) : Option Nat := do
  return ((16 * (← hexValue? a) + (← hexValue? b)) * 16 + (← hexValue? c)) * 16 + (← hexValue? d)

def isHighUnit (u : Nat) : Bool :=
  0xd800 ≤ u && u < 0xdc00

def isLowUnit (u : Nat) : Bool :=
  0xdc00 ≤ u && u < 0xe000

/-- The character of a single unit; half a pair becomes the replacement character. -/
def unitChar (u : Nat) : Char :=
  if isHighUnit u || isLowUnit u then Char.ofNat 0xfffd else Char.ofNat u

def pairChar (high low : Nat) : Char :=
  Char.ofNat (0x10000 + (high - 0xd800) * 0x400 + (low - 0xdc00))

def shortEscape? (c : Char) : Option Char :=
  match c with
  | '"' => some '"'
  | '\\' => some '\\'
  | '/' => some '/'
  | 'b' => some '\x08'
  | 'f' => some '\x0c'
  | 'n' => some '\n'
  | 'r' => some '\r'
  | 't' => some '\t'
  | _ => none

/-- Reads a text up to its closing quote; `seen` holds the characters so far, last first. -/
def readText (seen : List Char) : List Char → Result (String × List Char)
  | '"' :: rest => .ok (String.ofList seen.reverse, rest)
  | '\\' :: 'u' :: a :: b :: c :: d :: '\\' :: 'u' :: e :: f :: g :: h :: rest =>
    match unit? a b c d, unit? e f g h with
    | some first, some second =>
      if isHighUnit first && isLowUnit second then readText (pairChar first second :: seen) rest
      else readText (unitChar first :: seen) ('\\' :: 'u' :: e :: f :: g :: h :: rest)
    | _, _ => .error .malformedJson
  | '\\' :: 'u' :: a :: b :: c :: d :: rest =>
    match unit? a b c d with
    | some unit => readText (unitChar unit :: seen) rest
    | none => .error .malformedJson
  | '\\' :: c :: rest =>
    match shortEscape? c with
    | some c => readText (c :: seen) rest
    | none => .error .malformedJson
  | c :: rest => if c.toNat < 0x20 then .error .malformedJson else readText (c :: seen) rest
  | [] => .error .malformedJson

def readNumber (cs : List Char) : Result (Value × List Char) :=
  match Decimal.readLiteral cs with
  | none => .error .malformedJson
  | some (literal, rest) =>
    if !literal.isWhole then .ok (.float literal.toFloat, rest)
    else if Text.maxIntegerDigits < literal.whole.length then .error .badValue
    else .ok (.int literal.toInt, rest)

def words : List (String × Value) :=
  [("null", .null), ("true", .bool true), ("false", .bool false), ("NaN", .float (0.0 / 0.0)),
   ("Infinity", .float (1.0 / 0.0)), ("-Infinity", .float (-1.0 / 0.0))]

def readWord? (cs : List Char) : Option (Value × List Char) :=
  words.findSome? fun (word, value) =>
    if word.toList.isPrefixOf cs then some (value, cs.drop word.length) else none

mutual

/-- Reads the value in front of a text. The bound grows with the text, so it is never reached. -/
def readValue : Nat → List Char → Result (Value × List Char)
  | 0, _ => .error .malformedJson
  | bound + 1, cs =>
    match cs with
    | '"' :: rest => do
      let (s, rest) ← readText [] rest
      return (.text s, rest)
    | '[' :: rest =>
      match skipSpace rest with
      | ']' :: rest => .ok (.list [], rest)
      | rest => readItems bound [] rest
    | '\x7b' :: rest =>
      match skipSpace rest with
      | '\x7d' :: rest => .ok (.object [], rest)
      | rest => readFields bound [] rest
    | cs =>
      match readWord? cs with
      | some found => .ok found
      | none => readNumber cs

def readItems : Nat → List Value → List Char → Result (Value × List Char)
  | 0, _, _ => .error .malformedJson
  | bound + 1, seen, cs => do
    let (item, rest) ← readValue bound (skipSpace cs)
    match skipSpace rest with
    | ',' :: rest => readItems bound (item :: seen) rest
    | ']' :: rest => return (.list (item :: seen).reverse, rest)
    | _ => .error .malformedJson

def readFields : Nat → Fields → List Char → Result (Value × List Char)
  | 0, _, _ => .error .malformedJson
  | bound + 1, seen, cs =>
    match skipSpace cs with
    | '"' :: rest => do
      let (name, rest) ← readText [] rest
      match skipSpace rest with
      | ':' :: rest =>
        let (value, rest) ← readValue bound (skipSpace rest)
        match skipSpace rest with
        | ',' :: rest => readFields bound (seen.put name value) rest
        | '\x7d' :: rest => return (.object (seen.put name value), rest)
        | _ => .error .malformedJson
      | _ => .error .malformedJson
    | _ => .error .malformedJson

end

def read (s : String) : Result Value := do
  let cs := s.toList
  let (value, rest) ← readValue (2 * cs.length + 2) (skipSpace cs)
  if (skipSpace rest).isEmpty then return value else .error .malformedJson

end Json
end TurtleCurves
