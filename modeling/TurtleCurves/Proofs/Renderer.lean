import TurtleCurves.Proofs.Engine
import TurtleCurves.Renderer

/-!
This module contains the limit on symbols. What a renderer predicts is the true length of the expansion,
so tracing is refused for exactly the curves that are too long, and before anything is drawn.
-/

namespace TurtleCurves

namespace Renderer

variable {ω : Type} {r : Renderer} {c : Curve} {limit : Int} {depth : Nat}

theorem checkSize_of_maximum {maximum : Number} (hmaximum : r.settings.maxSymbols.toNumber = .ok maximum)
    (hdepth : c.depth = .int depth) :
    r.checkSize c =
      if maximum.lt (.whole (c.expansion depth).length) then
        .error (.violated
          (.tooManySymbols c.name depth (c.expansion depth).length r.settings.maxSymbols))
      else .ok (c.expansion depth).length := by
  unfold checkSize isAbove
  rw [Count.forCall_eq_ok_iff.2 hdepth]
  rw [hmaximum]
  simp only [bind, Except.bind, pure, Except.pure, Curve.predictedLength_grammar]

theorem trace_of_checkSize_error {fault : Fault} (h : r.checkSize c = .error fault)
    (watcher : Watcher ω) (notes : ω) :
    r.trace watcher notes c = ⟨r, notes, .error fault⟩ := by
  unfold trace
  rw [h]

end Renderer
end TurtleCurves
