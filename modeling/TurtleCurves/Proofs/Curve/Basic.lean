import TurtleCurves.Curve.Basic
import TurtleCurves.Proofs.Grammar.Growth

/-!
This module contains lemmas about curves. The grammar of a curve is closed, so its expansions never fail
and are as long as predicted.
-/

namespace TurtleCurves
namespace Curve

def expansion (c : Curve) (passes : Nat) : List Symbol :=
  TurtleCurves.expand c.grammar.image passes c.grammar.seed

theorem mem_alphabet_of_mem_expansion (c : Curve) (passes : Nat) :
    ∀ s ∈ c.expansion passes, s ∈ c.grammar.alphabet := by
  apply Grammar.mem_alphabet_of_mem_expand
  exact c.closed

@[simp]
theorem sequence_eq (c : Curve) (passes : Nat) : c.sequence passes = .ok (c.expansion passes) := by
  unfold sequence grammar
  rw [Grammar.expand?_eq_expand c.closed]
  rfl

@[simp]
theorem expand_int (c : Curve) (passes : Nat) :
    c.expand (.int passes) = .ok (c.expansion passes) := by
  unfold expand
  rw [Count.forCall_eq_ok_iff.2 rfl]
  exact c.sequence_eq passes

theorem predictedLength_grammar (c : Curve) (passes : Nat) :
    c.grammar.predictedLength passes = (c.expansion passes).length := by
  apply Grammar.predictedLength_eq_length_expand
  exact c.closed

end Curve
end TurtleCurves
