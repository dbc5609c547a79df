import TurtleCurves.Command.Invocation
import TurtleCurves.Curve.Catalogue
import TurtleCurves.Renderer
import TurtleCurves.Settings.File

/-!
This module contains the program behind the command line. It runs on a store of files and leaves behind
what it printed and how it ended.
-/

namespace TurtleCurves
namespace Command

inductive Ending
  | done
  | failed (fault : Fault)
  | misused
deriving Repr

inductive Line
  | text (s : String)
  | completion
deriving Repr, DecidableEq

def Line.shown (seconds : Float) : Line → String
  | text s => s
  | completion => "Render complete: " ++ Decimal.fixed ⟨2, true⟩ seconds ++ "s"

structure Report where
  lines : List Line
  ending : Ending
deriving Repr

structure Surroundings where
  catalogue : Catalogue
  environment : Settings.Environment
  moment : Moment

namespace Surroundings

/-- The settings of a run: those of the file and the environment, and then those of the command line. -/
def settings (s : Surroundings) (store : Store) (config : Option String)
    (overrides : List (Settings.Field × Int)) : Result Settings := do
  let settings ← Settings.assemble store config s.environment
  let settings := settings.setAll (overrides.map fun (field, n) => (field, .int n))
  settings.validate
  return settings

def prepare (s : Surroundings) (store : Store) (config : Option String)
    (overrides : List (Settings.Field × Int)) (curve : String) (iterations : Int) :
    Result (Curve × Renderer) := do
  let settings ← s.settings store config overrides
  let curve ← s.catalogue.create (.text curve) (.int iterations)
  return (curve, ← Renderer.ofSettings settings)

def announcement (c : Curve) (iterations : Int) : String :=
  "Rendering " ++ c.name ++ " (" ++ toString iterations ++ " iterations)..."

def render (s : Surroundings) (invocation : Invocation) (curve output : String) (iterations : Int)
    (overrides : List (Settings.Field × Int)) : StateM Store Report := do
  let unlessQuiet (lines : List Line) := if invocation.quiet then [] else lines
  match s.prepare (← get) invocation.config overrides curve iterations with
  | .error fault => return ⟨[], .failed fault⟩
  | .ok (c, renderer) =>
    let before := unlessQuiet [.text (announcement c iterations)]
    let (_, result) ← renderer.render s.moment c (some (.ofText output))
    match result with
    | .error fault => return ⟨before, .failed fault⟩
    | .ok _ =>
      return ⟨before ++ unlessQuiet [.completion, .text ("Saved: " ++ output)], .done⟩

def nameWidth : Nat := 8

def list (s : Surroundings) : Result (List String) := do
  return (← s.catalogue.list).map fun (name, description) =>
    String.ofList (name.toList.rightpad nameWidth ' ') ++ " " ++ description

def expand (s : Surroundings) (store : Store) (config : Option String) (curve : String)
    (iterations : Int) (limit : Option Int) (overrides : List (Settings.Field × Int)) :
    Result (List String) := do
  let (c, renderer) ← s.prepare store config overrides curve iterations
  let _ ← renderer.checkSize c
  let sequence ← c.expand (.int iterations)
  let shown :=
    match limit with
    | some limit => sequence.take limit.toNat
    | none => sequence
  let rest := if shown.length < sequence.length then "..." else ""
  return [Symbol.textOf shown ++ rest, "length: " ++ toString sequence.length]

def report (result : Result (List String)) : Report :=
  match result with
  | .ok lines => ⟨lines.map .text, .done⟩
  | .error fault => ⟨[], .failed fault⟩

def answer (s : Surroundings) (invocation : Invocation) (request : Request) : StateM Store Report := do
  match request with
  | .render curve output iterations overrides => s.render invocation curve output iterations overrides
  | .list => return report s.list
  | .expand curve iterations limit overrides =>
    return report (s.expand (← get) invocation.config curve iterations limit overrides)

def versionLine : String :=
  "lsystem-fractal v" ++ Metadata.version

def hasConfig (store : Store) (invocation : Invocation) : Bool :=
  match invocation.config with
  | some name => name ≠ "" && (store.find? (.ofText name)).isSome
  | none => true

def run (s : Surroundings) (arguments : List String) : StateM Store Report := do
  match Invocation.ofArguments arguments with
  | none => return ⟨[], .misused⟩
  | some invocation =>
    if !hasConfig (← get) invocation then
      return ⟨[], .misused⟩
    let first := if invocation.version then [.text versionLine] else []
    match invocation.request with
    | none => return ⟨first, .done⟩
    | some request =>
      let report ← s.answer invocation request
      return { report with lines := first ++ report.lines }

end Surroundings
end Command
end TurtleCurves
