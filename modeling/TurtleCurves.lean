import TurtleCurves.Curve.Scripted
import TurtleCurves.Main
import TurtleCurves.Path.Measure
import TurtleCurves.Proofs.Curve.Closure
import TurtleCurves.Proofs.Curve.Folding
import TurtleCurves.Proofs.Curve.Span
import TurtleCurves.Proofs.Path.Shared
import TurtleCurves.Proofs.Renderer
import TurtleCurves.Turtle.Sketch
import TurtleCurves.Proofs.Curve.Heading
import TurtleCurves.Proofs.Engine.Watching
import TurtleCurves.Proofs.Curve.Lattice
import TurtleCurves.Proofs.Curve.Size
import TurtleCurves.Proofs.Drawing.Fit
import TurtleCurves.Proofs.Store.Loading
import TurtleCurves.Proofs.Settings.Precedence
import TurtleCurves.Proofs.Settings.Acceptance
import TurtleCurves.Proofs.Color.Spread
import TurtleCurves.Proofs.Drawing.Agreement
import TurtleCurves.Proofs.Curve.Catalogue
import TurtleCurves.Proofs.Command.Expansion
import TurtleCurves.Proofs.Curve.Placing
import TurtleCurves.Proofs.Turtle.Stroke
import TurtleCurves.Proofs.Store.Refusal
import TurtleCurves.Proofs.Settings.Soundness
import TurtleCurves.Proofs.Color.Independence
import TurtleCurves.Proofs.Drawing.ViewBox
import TurtleCurves.Proofs.Drawing.Outcome
import TurtleCurves.Proofs.Decimal.Canonical
import TurtleCurves.Proofs.Drawing.Title
import TurtleCurves.Proofs.Grammar.Simultaneous
import TurtleCurves.Proofs.Binary.Range
import TurtleCurves.Proofs.Binary.Remainder
import TurtleCurves.Proofs.Turtle.Heading
import TurtleCurves.Proofs.Grammar.Coverage
import TurtleCurves.Proofs.Grammar.Bounds
