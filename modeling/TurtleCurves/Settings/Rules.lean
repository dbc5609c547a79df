import TurtleCurves.Settings

/-!
This module contains the rules that settings have to keep, in the order in which they are checked. Only
numbers can be compared and only what has elements can be a color; a rule that meets anything else fails
as an operation on the wrong sort of value.
-/

namespace TurtleCurves
namespace Settings

def maxChannel : Int := 255

/-- Whether all channels are bytes. The first one that is not settles it. -/
def areBytes : List Value → Result Bool
  | [] => .ok true
  | channel :: rest => do
    let n ← channel.toInt
    if 0 ≤ n ∧ n ≤ maxChannel then areBytes rest else return false

def isColor (color : Value) : Result Bool := do
  let channels ← color.elements
  if channels.length = 4 then areBytes channels else return false

def checkSize (s : Settings) : Result Unit := do
  if (← s.width.toNumber).le (.whole 0) then
    .error (.settings .size)
  if (← s.height.toNumber).le (.whole 0) then
    .error (.settings .size)

def checkMargin (s : Settings) : Result Unit := do
  let margin ← s.margin.toNumber
  if margin.lt (.whole 0) then
    .error (.settings .negativeMargin)
  if ((← s.width.toNumber).lesser (← s.height.toNumber)).le margin.double then
    .error (.settings .noRoom)

def checkLineWidth (s : Settings) : Result Unit := do
  if (← s.lineWidth.toNumber).lt (.whole 1) then
    .error (.settings .lineWidth)

def checkColor (s : Settings) (field : Field) : Result Unit := do
  if !(← isColor (s.get field)) then
    .error (.settings (.color field.name))

def checkGradientCount (s : Settings) : Result Unit := do
  if (← s.gradientCount.toNumber).lt (.whole 2) then
    .error (.settings .gradientCount)

def checkMaxSymbols (s : Settings) : Result Unit := do
  if (← s.maxSymbols.toNumber).le (.whole 0) then
    .error (.settings .maxSymbols)

def checkJpegQuality (s : Settings) : Result Unit := do
  let quality ← s.jpegQuality.toNumber
  if !((Number.whole 1).le quality && quality.le (.whole 100)) then
    .error (.settings .jpegQuality)

def validate (s : Settings) : Result Unit := do
  s.checkSize
  s.checkMargin
  s.checkLineWidth
  Field.colors.forM s.checkColor
  s.checkGradientCount
  s.checkMaxSymbols
  s.checkJpegQuality

end Settings
end TurtleCurves
