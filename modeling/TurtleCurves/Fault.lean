import TurtleCurves.Engine.Phase
import TurtleCurves.Number
import TurtleCurves.Symbol

/-!
This module contains everything that can go wrong, by its cause.
-/

namespace TurtleCurves

inductive CountFault
  | notInteger (value : Value)
  | negative (value : Int)
deriving Repr

inductive GrammarFault
  | strayKey (symbol : Symbol) (alphabet : String)
  | strayImage (symbol : Symbol) (alphabet : String) (stray : List Symbol)
  | straySeed (alphabet : String) (stray : List Symbol)
deriving Repr, DecidableEq

inductive Refusal
  | count (fault : CountFault)
  /-- A family has a reason of its own. -/
  | declined (reason : String)
  | grammar (fault : GrammarFault)
deriving Repr

inductive GradientEnd
  | first
  | last
deriving Repr, DecidableEq

/-- Which documented requirement on its arguments an operation found violated. -/
inductive Violation
  | count (fault : CountFault)
  | fewColors (count : Value)
  | channelCount (color : GradientEnd) (channels : List Value)
  | channelRange (color : GradientEnd)
  | tooManySymbols (curve : String) (depth predicted : Nat) (limit : Value)
deriving Repr

inductive SettingsFault
  | size
  | negativeMargin
  | noRoom
  | lineWidth
  | color (setting : String)
  | gradientCount
  | maxSymbols
  | jpegQuality
deriving Repr, DecidableEq

inductive Fault
  | refused (refusal : Refusal)
  | violated (violation : Violation)
  | transition (before after : Phase)
  | unknownPhase
  | notDrawable
  /-- The watcher of a render gave up. -/
  | watcher
  | noRule
  | undrawnSymbol (symbol : Symbol)
  /-- A path was extended before it was begun. -/
  | noStart
  | noVertices
  | degenerateBounds
  | unknownCurve (name : String) (known : List String)
  | notCurve
  | settings (fault : SettingsFault)
  | unknownSettings (names : List String)
  | badVariable (setting raw : String)
  | invalidJson (path : String)
  | notObject (path : String)
  | sectionNotObject
  | unsupportedFormat (suffix : String) (supported : List String)
  /-- A value is of the wrong sort for an operation. -/
  | wrongSort
  /-- A value is of the right sort, but the operation has no result for it. -/
  | badValue
  /-- A value does not offer what is asked of it. -/
  | missingOperation
  | missingField
  | overflow
  | divisionByZero
  | malformedJson
  | badEncoding
  | noFile
  | isDirectory
  | fileInTheWay
  | notDirectory
  | notImage
deriving Repr

abbrev Result := Except Fault

end TurtleCurves
