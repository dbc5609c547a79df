import TurtleCurves.Command.Arguments
import TurtleCurves.Settings.Field
import TurtleCurves.Text.Integer

/-!
This module contains what the program can be asked to do, and how it is asked on the command line.
-/

namespace TurtleCurves
namespace Command

inductive GlobalOption
  | version
  | config
  | verbose
  | quiet
deriving Repr, DecidableEq

inductive CommandOption
  | iterations
  | limit
  | field (f : Settings.Field)
deriving Repr, DecidableEq

inductive Request
  | render (curve output : String) (iterations : Int) (overrides : List (Settings.Field × Int))
  | list
  | expand (curve : String) (iterations : Int) (limit : Option Int)
      (overrides : List (Settings.Field × Int))
deriving Repr

structure Invocation where
  version : Bool
  config : Option String
  quiet : Bool
  request : Option Request
deriving Repr

namespace Invocation

def globalUsage : Usage GlobalOption where
  options :=
    [⟨["--version"], .version, false⟩, ⟨["--config"], .config, true⟩,
     ⟨["--verbose", "-v"], .verbose, false⟩, ⟨["--quiet", "-q"], .quiet, false⟩]
  mixed := false

def iterationsOption : OptionSpec CommandOption :=
  ⟨["--iterations", "-n"], .iterations, true⟩

def fieldOption (f : Settings.Field) : OptionSpec CommandOption :=
  ⟨["--" ++ f.name.map fun c => if c = '_' then '-' else c], .field f, true⟩

def renderFields : List Settings.Field :=
  [.width, .height, .margin, .lineWidth, .maxSymbols]

def renderUsage : Usage CommandOption where
  options := iterationsOption :: renderFields.map fieldOption
  mixed := true

def listUsage : Usage CommandOption where
  options := []
  mixed := true

def expandUsage : Usage CommandOption where
  options := [iterationsOption, ⟨["--limit"], .limit, true⟩, fieldOption .maxSymbols]
  mixed := true

def usualRenderIterations : Int := 4

def usualExpandIterations : Int := 1

def readValue (a : Arguments CommandOption) (key : CommandOption) : Option (Option Int) :=
  match a.value? key with
  | some text => (Text.integer? text).map some
  | none => some none

def readFields (a : Arguments CommandOption) (fields : List Settings.Field) :
    Option (List (Settings.Field × Int)) :=
  fields.filterMapM fun f => do return (← readValue a (.field f)).map fun n => (f, n)

def readRender (arguments : List String) : Option Request := do
  let a ← Arguments.split renderUsage arguments
  let iterations ← readValue a .iterations
  let overrides ← readFields a renderFields
  match a.positional with
  | [curve, output] =>
    some (.render curve output (iterations.getD usualRenderIterations) overrides)
  | _ => none

def readList (arguments : List String) : Option Request := do
  let a ← Arguments.split listUsage arguments
  if a.positional.isEmpty then some .list else none

def readExpand (arguments : List String) : Option Request := do
  let a ← Arguments.split expandUsage arguments
  let iterations ← readValue a .iterations
  let limit ← readValue a .limit
  let overrides ← readFields a [.maxSymbols]
  match a.positional with
  | [curve] => some (.expand curve (iterations.getD usualExpandIterations) limit overrides)
  | _ => none

def readRequest (command : String) (arguments : List String) : Option Request :=
  if command = "render" then readRender arguments
  else if command = "list" then readList arguments
  else if command = "expand" then readExpand arguments
  else none

def ofArguments (arguments : List String) : Option Invocation := do
  let a ← Arguments.split globalUsage arguments
  let request ←
    match a.positional with
    | [] => some none
    | command :: arguments => (readRequest command arguments).map some
  return ⟨a.has .version, a.value? .config, a.has .quiet, request⟩

end Invocation
end Command
end TurtleCurves
