import TurtleCurves.Proofs.Curve.Exact
import TurtleCurves.Proofs.Curve.Letter

/-!
This module contains the closed figures, on the sides of a square and of a triangle. Each letter of the
first sequence grows into one side, and a side turns by nothing on the whole, so the sides differ by the
corners between them only.
-/

namespace TurtleCurves

open Trigonometry

/--
What a letter grows into bears a spike: a turn to the left before it and after it, and two to the right
where its legs meet.
-/
structure Pattern.Spiked (p : Pattern) (base left right : Symbol) (degrees : Int) : Prop where
  motion?_base : p.motion? base = some .forward
  motion?_left : p.motion? left = some (.turn degrees)
  motion?_right : p.motion? right = some (.turn (-degrees))
  grown_succ : ∀ n,
    p.grown (n + 1) base
      =
    p.grown n base ++ left :: (p.grown n base ++ right :: right :: (p.grown n base ++
      left :: p.grown n base))

namespace Pattern.Spiked

variable {p : Pattern} {base left right : Symbol} {degrees : Int}
variable (h : p.Spiked base left right degrees)
include h

theorem netTurn_grown (n : Nat) : p.netTurn (p.grown n base) = 0 := by
  induction n with
  | zero => exact netTurn_of_forward h.motion?_base []
  | succ n ih =>
    rw [h.grown_succ]
    simp only [netTurn_append, netTurn_of_turn h.motion?_left, netTurn_of_turn h.motion?_right, ih]
    omega

theorem branches : p.Branches base [0, degrees, -degrees, 0] where
  motion?_base := h.motion?_base
  headings_grown := by
    intro n heading
    have hright : heading + degrees + -degrees + -degrees = heading + -degrees := by omega
    have hend : heading + -degrees + degrees = heading := by omega
    rw [h.grown_succ]
    simp only [headings_append, headings_of_turn h.motion?_left, headings_of_turn h.motion?_right,
      h.netTurn_grown, List.flatMap_cons, List.flatMap_nil, List.append_nil, Int.add_zero, hright,
      hend]

theorem length_headings (n : Nat) (heading : Int) :
    (p.headings heading (p.grown n base)).length = 4 ^ n := by
  exact h.branches.length_headings n heading

end Pattern.Spiked

def polygon (sides : Nat) (corner : Int) (side : List Int) : List Int :=
  (List.range sides).flatMap fun j : Nat => side.map (· + corner * j)

theorem sum_map_direction_add (side : List Int) (heading : Int) :
    ((side.map (· + heading)).map direction).sum = direction heading * (side.map direction).sum := by
  rw [map_direction_add]
  rw [List.sum_map_mul_left]
  rw [List.map_id']

theorem sum_direction_polygon (sides : Nat) (corner : Int) (side : List Int) :
    ((polygon sides corner side).map direction).sum
      =
    ((List.range sides).map fun j : Nat => direction (corner * j)).sum * (side.map direction).sum := by
  unfold polygon
  rw [List.map_flatMap]
  induction List.range sides with
  | nil => simp
  | cons j rest ih =>
    simp only [List.flatMap_cons, List.sum_append, List.map_cons, List.sum_cons]
    rw [ih]
    rw [sum_map_direction_add]
    ring

namespace Pattern

variable {p : Pattern} {word : List Symbol} {sides : Nat} {corner : Int} {side : List Int}

/-- A sequence whose steps draw one side after the other and lead back to where they begin. -/
structure Encloses (p : Pattern) (word : List Symbol) (sides : Nat) (corner : Int)
    (side : List Int) : Prop where
  headings_eq : p.headings 0 word = polygon sides corner side
  drawn : ∃ pen, p.follow (1 : ℝ) Pen.fresh word = .ok pen ∧
    pen.path.lines = walk 0 ((polygon sides corner side).map direction)
  closed : ∀ (step : ℝ) (start : Pen ℝ), ∃ pen, p.follow step start word = .ok pen ∧
    pen.position = start.position

theorem reach_eq_zero (hheadings : p.headings 0 word = polygon sides corner side)
    (hcorners : ((List.range sides).map fun j : Nat => direction (corner * j)).sum = 0) :
    p.reach word = 0 := by
  unfold reach legs
  rw [hheadings]
  rw [sum_direction_polygon]
  rw [hcorners]
  rw [zero_mul]

theorem encloses (hword : ∀ s ∈ word, p.motion? s ≠ none)
    (hheadings : p.headings 0 word = polygon sides corner side)
    (hcorners : ((List.range sides).map fun j : Nat => direction (corner * j)).sum = 0) :
    p.Encloses word sides corner side := by
  refine ⟨hheadings, ?_, ?_⟩
  . obtain ⟨pen, hpen, hlines⟩ := exists_walk hword
    refine ⟨pen, hpen, ?_⟩
    rw [hlines]
    unfold legs
    rw [hheadings]
  . intro step start
    obtain ⟨pen, hpen⟩ := exists_follow hword step start
    refine ⟨pen, hpen, ?_⟩
    rw [← Point.toComplex_inj]
    rw [position_follow hpen]
    rw [reach_eq_zero hheadings hcorners]
    ring

end Pattern

namespace Cesaro

theorem spiked : pattern.Spiked F L R 85 where
  motion?_base := motion?_letters.1
  motion?_left := motion?_letters.2.2.1
  motion?_right := motion?_letters.2.2.2
  grown_succ := grown_F

theorem headings_word (n : Nat) {word : List Symbol} (h : pattern.word n = .ok word) :
    pattern.headings 0 word = polygon 4 90 (pattern.headings 0 (pattern.grown n F)) := by
  obtain ⟨_, hQ, _, _⟩ := motion?_letters
  rw [word_eq] at h
  cases h
  unfold polygon
  simp only [Pattern.headings_append, Pattern.headings_of_turn hQ, spiked.netTurn_grown,
    ← Pattern.headings_eq_map]
  simp [List.range_succ]

theorem encloses (n : Nat) {word : List Symbol} (h : pattern.word n = .ok word) :
    pattern.Encloses word 4 90 (pattern.headings 0 (pattern.grown n F)) := by
  apply Pattern.encloses
  . exact Pattern.motion?_ne_none_of_word grammar_closed motion?_ne_none h
  . exact headings_word n h
  . have hlast := direction_add_180 90
    norm_num at hlast
    simp [List.range_succ, direction_180, hlast]

end Cesaro

namespace Koch

theorem spiked : pattern.Spiked F plus minus 60 where
  motion?_base := motion?_letters.1
  motion?_left := motion?_letters.2.1
  motion?_right := motion?_letters.2.2
  grown_succ := grown_F

theorem headings_word (n : Nat) {word : List Symbol} (h : pattern.word n = .ok word) :
    pattern.headings 0 word = polygon 3 (-120) (pattern.headings 0 (pattern.grown n F)) := by
  obtain ⟨_, _, hminus⟩ := motion?_letters
  rw [word_eq] at h
  cases h
  unfold polygon
  simp only [Pattern.headings_append, Pattern.headings_of_turn hminus, spiked.netTurn_grown,
    ← Pattern.headings_eq_map]
  simp [List.range_succ]

theorem direction_60_add : direction 60 + direction (-60) = 1 := by
  have hangle : (60 : ℂ) * (Real.pi / 180) = (Real.pi / 3 : ℝ) := by
    push_cast
    ring
  have hcos : (2 : ℂ) * Complex.cos (Real.pi / 3 : ℝ) = 1 := by
    rw [← Complex.ofReal_cos, Real.cos_pi_div_three]
    push_cast
    ring
  simp only [direction, Int.cast_neg, Int.cast_ofNat, neg_mul, hangle]
  rw [← hcos]
  rw [Complex.two_cos]
  simp only [neg_mul]

theorem reach_grown (n : Nat) : pattern.reach (pattern.grown n F) = 3 ^ n := by
  obtain ⟨hF, hplus, hminus⟩ := motion?_letters
  induction n with
  | zero => simp [Pattern.reach_of_forward hF]
  | succ n ih =>
    have hback : direction 60 * direction (-60) = 1 := by
      rw [← direction_add]
      exact direction_zero
    rw [grown_F]
    simp only [Pattern.reach_append, Pattern.reach_of_turn hplus, Pattern.reach_of_turn hminus,
      spiked.netTurn_grown, direction_zero, ih]
    linear_combination 3 ^ n * direction_60_add +
      3 ^ n * (1 + direction (-60) + direction 60 * direction (-60)) * hback

theorem sum_corners : 1 + direction (-120) + direction (-240) = 0 := by
  have hfirst := direction_add_180 (-120)
  have hsecond := direction_add_180 (-240)
  norm_num at hfirst hsecond
  linear_combination -direction_60_add + hfirst + hsecond

theorem encloses (n : Nat) {word : List Symbol} (h : pattern.word n = .ok word) :
    pattern.Encloses word 3 (-120) (pattern.headings 0 (pattern.grown n F)) := by
  apply Pattern.encloses
  . exact Pattern.motion?_ne_none_of_word grammar_closed motion?_ne_none h
  . exact headings_word n h
  . simpa [List.range_succ, add_assoc] using sum_corners

theorem sum_direction_side (n : Nat) (heading : Int) :
    (((pattern.headings 0 (pattern.grown n F)).map (· + heading)).map direction).sum
      =
    3 ^ n * direction heading := by
  rw [sum_map_direction_add]
  change direction heading * pattern.reach (pattern.grown n F) = _
  rw [reach_grown]
  ring

noncomputable def corner (j : Nat) : ℂ :=
  (layout : Layout ℝ).start.toComplex + ((List.range j).map fun i : Nat => direction (-120 * i)).sum

theorem step_layout (n : Nat) : layout.step n = ((3 : ℝ) ^ n)⁻¹ := by
  simp [layout, Layout.step, ofInt, power]

theorem facing_place (n : Nat) : (layout.place n).facing = 1 := by
  apply Layout.facing_place
  simp [layout, ofInt]

theorem scale_layout (n : Nat) : (layout.step n : ℝ) * (layout.place n).facing = (3 ^ n)⁻¹ := by
  rw [facing_place, step_layout]
  simp

theorem sum_scaled_side (n : Nat) (heading : Int) :
    ((((pattern.headings 0 (pattern.grown n F)).map (· + heading)).map direction).map
      ((3 ^ n)⁻¹ * ·)).sum
      =
    direction heading := by
  have hpos : (3 : ℂ) ^ n ≠ 0 := pow_ne_zero n (by norm_num)
  rw [List.sum_map_mul_left]
  rw [List.map_id']
  rw [sum_direction_side]
  rw [inv_mul_cancel_left₀ hpos]

theorem lines_plot (n : Nat) {word : List Symbol} (h : pattern.word n = .ok word) :
    ∃ pen, pattern.plot layout n word = .ok pen ∧
      pen.path.lines = (List.range 3).flatMap fun j : Nat =>
        walk (corner j) (((pattern.headings 0 (pattern.grown n F)).map (· + (-120 : Int) * j)).map
          fun heading => (3 ^ n)⁻¹ * direction heading) := by
  have hword := Pattern.motion?_ne_none_of_word grammar_closed motion?_ne_none h
  obtain ⟨pen, hpen, _, _, hlines⟩ := Pattern.exists_plot hword layout n
  refine ⟨pen, hpen, ?_⟩
  rw [hlines]
  rw [scale_layout]
  unfold Pattern.legs
  rw [headings_word n h]
  unfold polygon
  rw [List.map_flatMap, List.map_flatMap]
  rw [walk_flatMap_range]
  -- Every side is one step of the triangle long, so where it begins does not depend on the depth.
  simp only [sum_scaled_side]
  unfold corner
  simp only [List.map_map, Function.comp_def]

end Koch

/--
The figures on a square and on a triangle are closed at every depth, from wherever and with whatever step
they are drawn. Their sides differ by whole corners, and as the steps of the snowflake shrink, its sides
go on to meet in the same three points.
-/
theorem closed_figures (n : Nat) :
    (∃ word, Cesaro.pattern.word n = .ok word ∧
      let side := Cesaro.pattern.headings 0 (Cesaro.pattern.grown n Cesaro.F)
      side.length = 4 ^ n ∧ Cesaro.pattern.Encloses word 4 90 side) ∧
    ∃ word, Koch.pattern.word n = .ok word ∧
      let side := Koch.pattern.headings 0 (Koch.pattern.grown n Koch.F)
      side.length = 4 ^ n ∧ Koch.pattern.Encloses word 3 (-120) side ∧
      (∀ j : Nat, ((side.map (· + (-120 : Int) * j)).map direction).sum = 3 ^ n * direction (-120 * j)) ∧
      Koch.layout.step n = ((3 : ℝ) ^ n)⁻¹ ∧
      ∃ pen, Koch.pattern.plot Koch.layout n word = .ok pen ∧
        pen.path.lines = (List.range 3).flatMap fun j : Nat =>
          walk (Koch.corner j) ((side.map (· + (-120 : Int) * j)).map
            fun heading => (3 ^ n)⁻¹ * direction heading) := by
  constructor
  . refine ⟨_, Cesaro.word_eq n, ?_, ?_⟩
    . apply Cesaro.spiked.length_headings
    . exact Cesaro.encloses n (Cesaro.word_eq n)
  . refine ⟨_, Koch.word_eq n, ?_, ?_, ?_, ?_, ?_⟩
    . apply Koch.spiked.length_headings
    . exact Koch.encloses n (Koch.word_eq n)
    . intro j
      apply Koch.sum_direction_side
    . apply Koch.step_layout
    . exact Koch.lines_plot n (Koch.word_eq n)

/-- What engines draw of the two figures is the same plot, with the numbers rounded to doubles. -/
theorem Cesaro.rendersPlot : pattern.RendersPlot layout :=
  placeable.rendersPlot layout_fits

theorem Koch.rendersPlot : pattern.RendersPlot layout :=
  placeable.rendersPlot layout_fits

end TurtleCurves
