import TurtleCurves.Curve.Cesaro
import TurtleCurves.Curve.Dragon
import TurtleCurves.Curve.Koch
import TurtleCurves.Curve.Levy
import TurtleCurves.Proofs.Curve.Course

/-!
This module contains what the letters of each pattern do and what they grow into, one pass at a time.
-/

namespace TurtleCurves

namespace Cesaro

theorem motion?_letters :
    pattern.motion? F = some .forward ∧ pattern.motion? Q = some (.turn 90) ∧
      pattern.motion? L = some (.turn 85) ∧ pattern.motion? R = some (.turn (-85)) := by
  decide

theorem motion?_ne_none : ∀ s ∈ pattern.grammar.alphabet, pattern.motion? s ≠ none := by
  decide

theorem motion?_eq_forward_iff (s : Symbol) : pattern.motion? s = some .forward ↔ s = F := by
  simp only [pattern, motion?]
  grind

theorem grown_fixed (n : Nat) :
    pattern.grown n Q = [Q] ∧ pattern.grown n L = [L] ∧ pattern.grown n R = [R] := by
  refine ⟨?_, ?_, ?_⟩ <;> exact Pattern.grown_of_fixed (by decide) n

theorem grown_F (n : Nat) :
    pattern.grown (n + 1) F
      =
    pattern.grown n F ++ L :: (pattern.grown n F ++ R :: R :: (pattern.grown n F ++
      L :: pattern.grown n F)) := by
  have himage : pattern.grammar.image F = [F, L, F, R, R, F, L, F] := by decide
  rw [Pattern.grown_succ, himage]
  simp [grown_fixed]

theorem word_eq (n : Nat) :
    pattern.word n = .ok (pattern.grown n F ++ Q :: (pattern.grown n F ++ Q ::
      (pattern.grown n F ++ Q :: (pattern.grown n F ++ [Q])))) := by
  rw [Pattern.word_eq grammar_closed, Pattern.expand_eq_grown]
  change Except.ok ([F, Q, F, Q, F, Q, F, Q].flatMap _) = _
  simp [grown_fixed]

theorem placeable : pattern.Placeable where
  closed := grammar_closed
  letters := motion?_ne_none
  heading := by
    intro n fault h
    cases h

end Cesaro

namespace Koch

theorem motion?_letters :
    pattern.motion? F = some .forward ∧ pattern.motion? plus = some (.turn 60) ∧
      pattern.motion? minus = some (.turn (-60)) := by
  decide

theorem motion?_ne_none : ∀ s ∈ pattern.grammar.alphabet, pattern.motion? s ≠ none := by
  decide

theorem motion?_eq_forward_iff (s : Symbol) : pattern.motion? s = some .forward ↔ s = F := by
  simp only [pattern, motion?]
  grind

theorem grown_fixed (n : Nat) :
    pattern.grown n plus = [plus] ∧ pattern.grown n minus = [minus] := by
  refine ⟨?_, ?_⟩ <;> exact Pattern.grown_of_fixed (by decide) n

theorem grown_F (n : Nat) :
    pattern.grown (n + 1) F
      =
    pattern.grown n F ++ plus :: (pattern.grown n F ++ minus :: minus :: (pattern.grown n F ++
      plus :: pattern.grown n F)) := by
  have himage : pattern.grammar.image F = [F, plus, F, minus, minus, F, plus, F] := by decide
  rw [Pattern.grown_succ, himage]
  simp [grown_fixed]

theorem word_eq (n : Nat) :
    pattern.word n = .ok (pattern.grown n F ++ minus :: minus :: (pattern.grown n F ++
      minus :: minus :: pattern.grown n F)) := by
  rw [Pattern.word_eq grammar_closed, Pattern.expand_eq_grown]
  change Except.ok ([F, minus, minus, F, minus, minus, F].flatMap _) = _
  simp [grown_fixed]

theorem placeable : pattern.Placeable where
  closed := grammar_closed
  letters := motion?_ne_none
  heading := by
    intro n fault h
    cases h

end Koch

namespace Levy

theorem motion?_letters :
    pattern.motion? F = some .forward ∧ pattern.motion? plus = some (.turn 45) ∧
      pattern.motion? minus = some (.turn (-45)) := by
  decide

theorem motion?_ne_none : ∀ s ∈ pattern.grammar.alphabet, pattern.motion? s ≠ none := by
  decide

theorem motion?_eq_forward_iff (s : Symbol) : pattern.motion? s = some .forward ↔ s = F := by
  simp only [pattern, motion?]
  grind

theorem grown_fixed (n : Nat) :
    pattern.grown n plus = [plus] ∧ pattern.grown n minus = [minus] := by
  refine ⟨?_, ?_⟩ <;> exact Pattern.grown_of_fixed (by decide) n

theorem grown_F (n : Nat) :
    pattern.grown (n + 1) F
      =
    plus :: (pattern.grown n F ++ minus :: minus :: (pattern.grown n F ++ [plus])) := by
  have himage : pattern.grammar.image F = [plus, F, minus, minus, F, plus] := by decide
  rw [Pattern.grown_succ, himage]
  simp [grown_fixed]

theorem word_eq (n : Nat) : pattern.word n = .ok (pattern.grown n F) := by
  rw [Pattern.word_eq grammar_closed, Pattern.expand_eq_grown]
  change Except.ok ([F].flatMap _) = _
  simp

theorem placeable : pattern.Placeable where
  closed := grammar_closed
  letters := motion?_ne_none
  heading := by
    intro n fault h
    cases h

end Levy

namespace Dragon

theorem motion?_letters :
    pattern.motion? F = some .forward ∧ pattern.motion? X = some .rest ∧
      pattern.motion? Y = some .rest ∧ pattern.motion? plus = some (.turn 90) ∧
      pattern.motion? minus = some (.turn (-90)) := by
  decide

theorem motion?_ne_none : ∀ s ∈ pattern.grammar.alphabet, pattern.motion? s ≠ none := by
  decide

theorem motion?_eq_forward_iff (s : Symbol) : pattern.motion? s = some .forward ↔ s = F := by
  simp only [pattern, motion?]
  grind

theorem grown_fixed (n : Nat) :
    pattern.grown n F = [F] ∧ pattern.grown n plus = [plus] ∧ pattern.grown n minus = [minus] := by
  refine ⟨?_, ?_, ?_⟩ <;> exact Pattern.grown_of_fixed (by decide) n

theorem grown_X (n : Nat) :
    pattern.grown (n + 1) X
      =
    pattern.grown n X ++ plus :: (pattern.grown n Y ++ [F, plus]) := by
  have himage : pattern.grammar.image X = [X, plus, Y, F, plus] := by decide
  rw [Pattern.grown_succ, himage]
  simp [grown_fixed]

theorem grown_Y (n : Nat) :
    pattern.grown (n + 1) Y
      =
    minus :: F :: (pattern.grown n X ++ minus :: pattern.grown n Y) := by
  have himage : pattern.grammar.image Y = [minus, F, X, minus, Y] := by decide
  rw [Pattern.grown_succ, himage]
  simp [grown_fixed]

theorem word_eq (n : Nat) : pattern.word n = .ok (F :: pattern.grown n X) := by
  rw [Pattern.word_eq grammar_closed, Pattern.expand_eq_grown]
  change Except.ok ([F, X].flatMap _) = _
  simp [grown_fixed]

theorem placeable : pattern.Placeable where
  closed := grammar_closed
  letters := motion?_ne_none
  heading := by
    intro n fault h
    simp only [pattern, heading] at h
    unfold Pattern.step
    cases hdouble : Pattern.double n with
    | error cause =>
      rw [hdouble] at h
      exact h
    | ok scale =>
      rw [hdouble] at h
      cases h

end Dragon
end TurtleCurves
