import TurtleCurves.Proofs.Curve.Exact
import TurtleCurves.Proofs.Curve.Letter

/-!
This module contains the spans of the dragon and of the Lévy C curve. Over the real numbers each pass
lengthens the chord of both by the square root of two and turns that of the dragon by 45 degrees, which
the shrinking step and the turned start undo.
-/

namespace TurtleCurves

open Trigonometry

theorem direction_neg_90 : direction (-90) = -Complex.I := by
  have hturned := direction_add_180 (-90)
  change direction 90 = _ at hturned
  rw [direction_90] at hturned
  rw [hturned]
  ring

theorem sqrt_two_mul_direction_45 : Real.sqrt 2 * direction 45 = 1 + Complex.I := by
  have hangle : (45 : ℂ) * (Real.pi / 180) = (Real.pi / 4 : ℝ) := by
    push_cast
    ring
  have hsqrt : Real.sqrt 2 * (Real.sqrt 2 / 2) = 1 := by
    rw [mul_div_assoc']
    rw [Real.mul_self_sqrt (by norm_num)]
    norm_num
  simp only [direction, Int.cast_ofNat, hangle]
  apply Complex.ext
  . rw [Complex.re_ofReal_mul, Complex.exp_ofReal_mul_I_re, Real.cos_pi_div_four, hsqrt]
    simp
  . rw [Complex.im_ofReal_mul, Complex.exp_ofReal_mul_I_im, Real.sin_pi_div_four, hsqrt]
    simp

section Steps

variable {l : Layout ℝ}

theorem Layout.step_mul_sqrt_two (h : l.factor = Real.sqrt 2) (n : Nat) :
    (l.step n : ℂ) * (Real.sqrt 2 : ℂ) ^ n = 1 := by
  have hstep : l.step n * Real.sqrt 2 ^ n = 1 := by
    unfold step
    rw [h]
    simp [ofInt, power]
  exact_mod_cast hstep

theorem Layout.step_eq_rpow (h : l.factor = Real.sqrt 2) (n : Nat) :
    l.step n = (2 : ℝ) ^ (-n / 2 : ℝ) := by
  unfold step
  rw [h]
  simp only [ofInt, power, Int.cast_one]
  rw [Real.sqrt_eq_rpow]
  rw [← Real.rpow_natCast, ← Real.rpow_mul (by norm_num)]
  rw [one_div, ← Real.rpow_neg (by norm_num)]
  congr 1
  ring

end Steps

theorem Dragon.factor_layout : (Dragon.layout : Layout ℝ).factor = Real.sqrt 2 := by
  simp [layout, sqrt, ofInt]

theorem Levy.factor_layout : (Levy.layout : Layout ℝ).factor = Real.sqrt 2 := by
  simp [layout, sqrt, ofInt]

namespace Dragon

theorem netTurn_grown (n : Nat) :
    pattern.netTurn (pattern.grown n X) + pattern.netTurn (pattern.grown n Y) = 0 := by
  induction n with
  | zero => decide
  | succ n ih =>
    obtain ⟨hF, _, _, hplus, hminus⟩ := motion?_letters
    rw [grown_X, grown_Y]
    simp only [Pattern.netTurn_append, Pattern.netTurn_of_forward hF, Pattern.netTurn_of_turn hplus,
      Pattern.netTurn_of_turn hminus, Pattern.netTurn_nil]
    omega

theorem netTurn_grown_X (n : Nat) : pattern.netTurn (pattern.grown (n + 1) X) = 180 := by
  obtain ⟨hF, _, _, hplus, hminus⟩ := motion?_letters
  have hn := netTurn_grown n
  rw [grown_X]
  simp only [Pattern.netTurn_append, Pattern.netTurn_of_forward hF, Pattern.netTurn_of_turn hplus,
    Pattern.netTurn_nil]
  omega

theorem reach_grown_X (n : Nat) :
    pattern.reach (pattern.grown (n + 1) X)
      =
    pattern.reach (pattern.grown n X) + Complex.I *
      (direction (pattern.netTurn (pattern.grown n X)) * pattern.reach (pattern.grown n Y) + 1) := by
  obtain ⟨hF, _, _, hplus, hminus⟩ := motion?_letters
  have hturns : direction (pattern.netTurn (pattern.grown n X)) *
      direction (pattern.netTurn (pattern.grown n Y)) = 1 := by
    rw [← direction_add]
    rw [netTurn_grown]
    exact direction_zero
  rw [grown_X]
  simp only [Pattern.reach_append, Pattern.reach_of_forward hF, Pattern.reach_of_turn hplus,
    Pattern.reach_nil, direction_90]
  linear_combination Complex.I * hturns

theorem reach_grown_Y (n : Nat) :
    pattern.reach (pattern.grown (n + 1) Y)
      =
    -Complex.I * (1 + pattern.reach (pattern.grown n X)) -
      direction (pattern.netTurn (pattern.grown n X)) * pattern.reach (pattern.grown n Y) := by
  obtain ⟨hF, _, _, hplus, hminus⟩ := motion?_letters
  rw [grown_Y]
  simp only [Pattern.reach_append, Pattern.reach_of_forward hF, Pattern.reach_of_turn hminus,
    direction_neg_90]
  linear_combination direction (pattern.netTurn (pattern.grown n X)) *
    pattern.reach (pattern.grown n Y) * Complex.I_mul_I

-- The two letters that are not drawn grow into the same walk, once that of `Y` is turned like `X` turns.
theorem reach_grown (n : Nat) :
    1 + pattern.reach (pattern.grown n X) = (1 + Complex.I) ^ n ∧
      direction (pattern.netTurn (pattern.grown n X)) * pattern.reach (pattern.grown n Y)
        = pattern.reach (pattern.grown n X) := by
  induction n with
  | zero =>
    obtain ⟨_, hX, hY, _, _⟩ := motion?_letters
    simp [Pattern.reach_of_not_forward, hX, hY]
  | succ n ih =>
    obtain ⟨hX, hY⟩ := ih
    rw [netTurn_grown_X, direction_180]
    rw [reach_grown_X, reach_grown_Y, hY]
    rw [pow_succ, ← hX]
    constructor
    . ring
    . ring

theorem facing_place (n : Nat) : (layout.place n).facing = direction (n * -45) := by
  unfold Layout.place direction
  rw [Pen.facing_face]
  congr 1
  simp only [layout, ofInt, halfTurn]
  push_cast
  ring

end Dragon

namespace Levy

theorem netTurn_grown (n : Nat) : pattern.netTurn (pattern.grown n F) = 0 := by
  induction n with
  | zero => decide
  | succ n ih =>
    obtain ⟨_, hplus, hminus⟩ := motion?_letters
    rw [grown_F]
    simp only [Pattern.netTurn_append, Pattern.netTurn_of_turn hplus, Pattern.netTurn_of_turn hminus,
      Pattern.netTurn_nil, ih]
    omega

theorem reach_grown (n : Nat) :
    pattern.reach (pattern.grown n F) = direction 45 ^ n * (1 - Complex.I) ^ n := by
  obtain ⟨hF, hplus, hminus⟩ := motion?_letters
  induction n with
  | zero => simp [Pattern.reach_of_forward hF]
  | succ n ih =>
    have hback : direction (-45) * direction (-45) = -Complex.I := by
      rw [← direction_add]
      exact direction_neg_90
    rw [grown_F]
    simp only [Pattern.reach_append, Pattern.reach_of_turn hplus, Pattern.reach_of_turn hminus,
      Pattern.reach_nil, netTurn_grown, direction_zero, ih]
    linear_combination direction 45 * (direction 45 ^ n * (1 - Complex.I) ^ n) * hback

theorem facing_place (n : Nat) : (layout.place n).facing = 1 := by
  apply Layout.facing_place
  simp [layout, ofInt]

end Levy

theorem toComplex_unit : (⟨1, 0⟩ : Point ℝ).toComplex = 1 := by
  apply Complex.ext <;> simp [Point.toComplex]

namespace Pattern

variable {p : Pattern} {word : List Symbol}

theorem exists_follow_fresh (hword : ∀ s ∈ word, p.motion? s ≠ none) :
    ∃ pen, p.follow (1 : ℝ) Pen.fresh word = .ok pen ∧ pen.position.toComplex = p.reach word := by
  obtain ⟨pen, hpen⟩ := exists_follow hword (1 : ℝ) Pen.fresh
  refine ⟨pen, hpen, ?_⟩
  rw [position_follow hpen]
  rw [Pen.position_fresh, Pen.facing_fresh]
  simp

theorem exists_plot_ends_at_unit (hword : ∀ s ∈ word, p.motion? s ≠ none) {l : Layout ℝ} {n : Nat}
    (hstart : l.start.toComplex = 0) (hspan : l.step n * (l.place n).facing * p.reach word = 1) :
    ∃ pen, p.plot l n word = .ok pen ∧ pen.path.end? = some ⟨1, 0⟩ := by
  obtain ⟨pen, hpen, hend, hposition, _⟩ := exists_plot hword l n
  refine ⟨pen, hpen, ?_⟩
  rw [hstart, hspan, zero_add, ← toComplex_unit, Point.toComplex_inj] at hposition
  rw [hend, hposition]

end Pattern

theorem Dragon.span (n : Nat) :
    (layout.step n : ℝ) * (layout.place n).facing * pattern.reach (F :: pattern.grown n X) = 1 := by
  have hback : direction (n * -45) * direction 45 ^ n = 1 := by
    rw [← direction_natCast_mul]
    rw [← direction_add]
    rw [← Int.mul_add]
    simp
  have hstep := Layout.step_mul_sqrt_two factor_layout n
  rw [facing_place]
  rw [Pattern.reach_of_forward motion?_letters.1]
  rw [(reach_grown n).1]
  rw [← sqrt_two_mul_direction_45]
  rw [mul_pow]
  linear_combination direction (n * -45) * direction 45 ^ n * hstep + hback

theorem Levy.span (n : Nat) :
    (layout.step n : ℝ) * (layout.place n).facing * pattern.reach (pattern.grown n F) = 1 := by
  have hchord : direction 45 * (1 - Complex.I) = Real.sqrt 2 := by
    have hsqrt : (Real.sqrt 2 : ℂ) * Real.sqrt 2 = 2 := by
      exact_mod_cast Real.mul_self_sqrt (by norm_num : (0 : ℝ) ≤ 2)
    have hpos : (Real.sqrt 2 : ℂ) ≠ 0 := by
      intro hzero
      simp [hzero] at hsqrt
    apply mul_left_cancel₀ hpos
    linear_combination (1 - Complex.I) * sqrt_two_mul_direction_45 - hsqrt - Complex.I_mul_I
  rw [facing_place]
  rw [reach_grown]
  rw [← mul_pow]
  rw [hchord]
  rw [mul_one]
  exact Layout.step_mul_sqrt_two factor_layout n

/--
With unit steps from the origin and the first axis ahead, the dragon of each depth ends at a power of
`1 + i` and the Lévy C curve at one of `1 - i`, turned by 45 degrees for each pass. With the steps and
the headings that they are drawn with, both end at the unit point.
-/
theorem unit_span (n : Nat) :
    ∃ dragon levy, Dragon.pattern.word n = .ok dragon ∧ Levy.pattern.word n = .ok levy ∧
      (∃ pen, Dragon.pattern.follow (1 : ℝ) Pen.fresh dragon = .ok pen ∧
        pen.position.toComplex = ((⟨1, 1⟩ : GaussianInt) ^ n : GaussianInt)) ∧
      (∃ pen, Levy.pattern.follow (1 : ℝ) Pen.fresh levy = .ok pen ∧
        pen.position.toComplex = direction 45 ^ n * (1 - Complex.I) ^ n) ∧
      (Dragon.layout.step n = (2 : ℝ) ^ (-n / 2 : ℝ) ∧ Levy.layout.step n = (2 : ℝ) ^ (-n / 2 : ℝ)) ∧
      ((Dragon.layout.place n).facing = direction (n * -45) ∧ (Levy.layout.place n).facing = 1) ∧
      (∃ pen : Pen ℝ, Dragon.pattern.plot Dragon.layout n dragon = .ok pen ∧
        pen.path.end? = some ⟨1, 0⟩) ∧
      ∃ pen : Pen ℝ, Levy.pattern.plot Levy.layout n levy = .ok pen ∧
        pen.path.end? = some ⟨1, 0⟩ := by
  have hdragon := Pattern.motion?_ne_none_of_word Dragon.grammar_closed Dragon.motion?_ne_none
    (Dragon.word_eq n)
  have hlevy := Pattern.motion?_ne_none_of_word Levy.grammar_closed Levy.motion?_ne_none
    (Levy.word_eq n)
  refine ⟨_, _, Dragon.word_eq n, Levy.word_eq n, ?_, ?_, ?_, ?_, ?_, ?_⟩
  . obtain ⟨pen, hpen, hposition⟩ := Pattern.exists_follow_fresh hdragon
    refine ⟨pen, hpen, ?_⟩
    rw [hposition]
    rw [Pattern.reach_of_forward Dragon.motion?_letters.1]
    rw [(Dragon.reach_grown n).1]
    rw [map_pow, GaussianInt.toComplex_def']
    simp
  . obtain ⟨pen, hpen, hposition⟩ := Pattern.exists_follow_fresh hlevy
    refine ⟨pen, hpen, ?_⟩
    rw [hposition]
    exact Levy.reach_grown n
  . exact ⟨Layout.step_eq_rpow Dragon.factor_layout n, Layout.step_eq_rpow Levy.factor_layout n⟩
  . exact ⟨Dragon.facing_place n, Levy.facing_place n⟩
  . exact Pattern.exists_plot_ends_at_unit hdragon Pen.position_fresh (Dragon.span n)
  . exact Pattern.exists_plot_ends_at_unit hlevy Pen.position_fresh (Levy.span n)

/-- What engines draw of the two curves is the same plot, with the numbers rounded to doubles. -/
theorem Dragon.rendersPlot : pattern.RendersPlot layout :=
  placeable.rendersPlot layout_fits

theorem Levy.rendersPlot : pattern.RendersPlot layout :=
  placeable.rendersPlot layout_fits

end TurtleCurves
