import TurtleCurves.Drawing.Raster
import TurtleCurves.Drawing.Svg
import TurtleCurves.Engine
import TurtleCurves.Settings.Rules
import TurtleCurves.Store.Image

/-!
This module contains the renderer, which takes a curve all the way to a picture. Before anything is
expanded it predicts how long the expansion gets and refuses one that is too long; afterwards it
remembers how long it was.
-/

namespace TurtleCurves

structure Renderer where
  settings : Settings
  lastSymbolCount : Nat := 0
deriving Repr, Inhabited

structure Moment where
  timestamp : String
  seconds : Float
deriving Repr, Inhabited

namespace Renderer

def ofSettings (settings : Settings) : Result Renderer := do
  settings.validate
  return { settings }

def isAbove (count : Nat) (limit : Value) : Result Bool := do
  return (← limit.toNumber).lt (.whole count)

/-- Predicts the length of an expansion, which must not be above the limit. -/
def checkSize (r : Renderer) (c : Curve) : Result Nat := do
  let depth ← Count.forCall c.depth
  let predicted := c.grammar.predictedLength depth
  if ← isAbove predicted r.settings.maxSymbols then
    .error (.violated (.tooManySymbols c.name depth predicted r.settings.maxSymbols))
  return predicted

def curveOf : Subject → Result Curve
  | .curve c => .ok c
  | .other => .error .missingOperation

structure Traced (ω : Type) where
  renderer : Renderer
  notes : ω
  result : Result (Path Float)

def trace {ω : Type} (r : Renderer) (watcher : Watcher ω) (notes : ω) (c : Curve) : Traced ω :=
  match r.checkSize c with
  | .error fault => ⟨r, notes, .error fault⟩
  | .ok _ =>
    let outcome := ({} : Engine).render watcher notes (.curve c)
    match outcome.result with
    | .error fault => ⟨r, outcome.notes, .error fault⟩
    | .ok path =>
      ⟨{ r with lastSymbolCount := outcome.engine.lastLength }, outcome.notes, .ok path⟩

def boundsOf (path : Path Float) : Result (List Value) := do
  if path.segmentCount = 0 then return [0, 0, 0, 0].map .float
  let box ← path.bounds
  return [box.left, box.right, box.bottom, box.top].map .float

def describe (r : Renderer) (moment : Moment) (c : Curve) (path : Path Float) : Result Metadata := do
  return {
    fractalType := .text c.name
    iterations := c.depth
    symbolCount := .int r.lastSymbolCount
    segmentCount := .int path.segmentCount
    resolution := [r.settings.width, r.settings.height]
    bounds := ← boundsOf path
    renderTimeSeconds := .float moment.seconds
    timestamp := .text moment.timestamp
    softwareVersion := .text Metadata.version
    fractalParameters := .object c.parameters }

def save (r : Renderer) (moment : Moment) (c : Curve) (path : Path Float) (raster : Raster)
    (name : FileName) : Task Unit := do
  if name.suffix = Picture.drawingSuffix then
    Svg.save path name r.settings (.text c.description) (.int Svg.usualPrecision)
  else
    let metadata ←
      if r.settings.saveMetadata.isSet then some <$> Task.ofResult (r.describe moment c path)
      else pure none
    raster.picture.save name metadata r.settings.jpegQuality

def finish (r : Renderer) (moment : Moment) (c : Curve) (path : Path Float) (name : Option FileName) :
    Task Raster := do
  let raster ← Task.ofResult (Raster.ofPath path r.settings)
  match name with
  | some name => r.save moment c path raster name
  | none => pure ()
  return raster

/-- Renders a curve to a picture. The renderer that is left remembers the expansion either way. -/
def render (r : Renderer) (moment : Moment) (c : Curve) (name : Option FileName) :
    StateM Store (Renderer × Result Raster) := do
  let traced := r.trace Watcher.idle () c
  match traced.result with
  | .error fault => return (traced.renderer, .error fault)
  | .ok path =>
    let result ← (traced.renderer.finish moment c path name).run
    return (traced.renderer, result)

end Renderer
end TurtleCurves
