import TurtleCurves.Drawing.Fit
import TurtleCurves.Proofs.Binary.Overflow

/-!
This module contains the scale of a drawing in doubles. The sides of a box around finite points are never
negative, but they may be infinite. The scale is nothing if a side that has a length meets no room at all, or
is infinite itself.
-/

namespace TurtleCurves

open Binary

variable {x y : Float} {v w : Rat}

theorem Coordinate.denotes_lesser (hx : Denotes x v) (hy : Denotes y w) :
    Denotes (Coordinate.lesser x y) (min v w) := by
  change Denotes (if x.isNaN then x else if y.isNaN then y else if y < x then y else x) _
  rw [hx.isNaN, hy.isNaN, if_neg (by simp), if_neg (by simp)]
  split
  . next hlt => rwa [min_eq_right ((hy.lt_iff hx).1 hlt).le]
  . next hle => rwa [min_eq_left (not_lt.1 ((hy.lt_iff hx).not.1 hle))]

theorem Coordinate.denotes_greater (hx : Denotes x v) (hy : Denotes y w) :
    Denotes (Coordinate.greater x y) (max v w) := by
  change Denotes (if x.isNaN then x else if y.isNaN then y else if x < y then y else x) _
  rw [hx.isNaN, hy.isNaN, if_neg (by simp), if_neg (by simp)]
  split
  . next hlt => rwa [max_eq_right ((hx.lt_iff hy).1 hlt).le]
  . next hle => rwa [max_eq_left (not_lt.1 ((hx.lt_iff hy).not.1 hle))]

def Point.IsFinite (p : Point Float) : Prop :=
  p.x.isFinite = true ∧ p.y.isFinite = true

namespace Box

variable {box : Box Float} {sides : Box Rat} {p : Point Float} {points : List (Point Float)}

/-- The sides of a box are finite, and none lies beyond the opposite one. -/
structure HasSides (box : Box Float) (sides : Box Rat) : Prop where
  left : Denotes box.left sides.left
  right : Denotes box.right sides.right
  bottom : Denotes box.bottom sides.bottom
  top : Denotes box.top sides.top
  left_le : sides.left ≤ sides.right
  bottom_le : sides.bottom ≤ sides.top

theorem exists_hasSides_around (h : p.IsFinite) : ∃ sides, (around p).HasSides sides := by
  obtain ⟨v, hx⟩ := isFinite_iff.1 h.1
  obtain ⟨w, hy⟩ := isFinite_iff.1 h.2
  exact ⟨⟨v, v, w, w⟩, hx, hx, hy, hy, le_rfl, le_rfl⟩

theorem HasSides.exists_cover (h : box.HasSides sides) (hp : p.IsFinite) :
    ∃ sides, (box.cover p).HasSides sides := by
  obtain ⟨v, hx⟩ := isFinite_iff.1 hp.1
  obtain ⟨w, hy⟩ := isFinite_iff.1 hp.2
  refine ⟨⟨_, _, _, _⟩, Coordinate.denotes_lesser h.left hx, Coordinate.denotes_greater h.right hx,
    Coordinate.denotes_lesser h.bottom hy, Coordinate.denotes_greater h.top hy, ?_, ?_⟩
  . exact (min_le_left _ _).trans (h.left_le.trans (le_max_left _ _))
  . exact (min_le_left _ _).trans (h.bottom_le.trans (le_max_left _ _))

theorem HasSides.exists_coverAll (h : box.HasSides sides) (hpoints : ∀ p ∈ points, p.IsFinite) :
    ∃ sides, (points.foldl cover box).HasSides sides := by
  induction points generalizing box sides with
  | nil => exact ⟨sides, h⟩
  | cons p points ih =>
    rw [List.forall_mem_cons] at hpoints
    obtain ⟨_, hcover⟩ := h.exists_cover hpoints.1
    exact ih hcover hpoints.2

end Box

theorem Path.exists_hasSides {path : Path Float} (hfinite : ∀ p ∈ path.vertices, p.IsFinite)
    (hne : path.vertices ≠ #[]) : ∃ box sides, path.bounds = .ok box ∧ box.HasSides sides := by
  unfold bounds bounds?
  cases hvertices : path.vertices.toList with
  | nil => exact absurd (Array.toList_eq_nil_iff.1 hvertices) hne
  | cons first rest =>
    have hpoints : ∀ p ∈ first :: rest, p.IsFinite := by
      intro p hp
      exact hfinite p (Array.mem_toList_iff.1 (hvertices ▸ hp))
    rw [List.forall_mem_cons] at hpoints
    obtain ⟨_, haround⟩ := Box.exists_hasSides_around hpoints.1
    obtain ⟨sides, hsides⟩ := haround.exists_coverAll hpoints.2
    exact ⟨_, sides, rfl, hsides⟩

theorem Path.bounds_of_empty {path : Path Float} (h : path.vertices = #[]) :
    path.bounds = .error .noVertices := by
  unfold bounds bounds?
  rw [h]

namespace Fit

variable {p q : EReal}

theorem beq_zero_iff_of_amount? (h : (view x).amount? = some q) : (x == 0) = true ↔ q = 0 := by
  rw [beq_iff_of_amount? h denotes_zero.amount?]
  norm_num

theorem amount?_smaller (hx : (view x).amount? = some p) (hy : (view y).amount? = some q) :
    (view (smaller x y)).amount? = some (min p q) := by
  change (view (if decide (y < x) = true then y else x)).amount? = _
  split
  . next hlt => rwa [min_eq_right ((lt_iff_of_amount? hy hx).1 (of_decide_eq_true hlt)).le]
  . next hle =>
    rw [decide_eq_true_iff] at hle
    rwa [min_eq_left (not_lt.1 ((lt_iff_of_amount? hy hx).not.1 hle))]

def IsScale (x : Float) : Prop :=
  ∃ q, (view x).amount? = some q ∧ 0 ≤ q

theorem IsScale.smaller (hx : IsScale x) (hy : IsScale y) :
    IsScale (smaller x y) ∧ ((Fit.smaller x y == 0) = true ↔ (x == 0) = true ∨ (y == 0) = true) := by
  obtain ⟨p, hp, hp'⟩ := hx
  obtain ⟨q, hq, hq'⟩ := hy
  have hsmaller := amount?_smaller hp hq
  refine ⟨⟨_, hsmaller, le_min hp' hq'⟩, ?_⟩
  rw [beq_zero_iff_of_amount? hsmaller, beq_zero_iff_of_amount? hp, beq_zero_iff_of_amount? hq]
  constructor
  . intro hzero
    rcases min_choice p q with hmin | hmin
    . exact .inl (hmin ▸ hzero)
    . exact .inr (hmin ▸ hzero)
  . rintro (rfl | rfl)
    . exact min_eq_left hq'
    . exact min_eq_right hp'

theorem foldl_smaller_beq_zero_iff {first : Float} {rest : List Float}
    (h : ∀ x ∈ first :: rest, IsScale x) :
    (rest.foldl smaller first == 0) = true ↔ ∃ x ∈ first :: rest, (x == 0) = true := by
  induction rest generalizing first with
  | nil => simp
  | cons next rest ih =>
    simp only [List.forall_mem_cons] at h
    obtain ⟨hfirst, hnext, hrest⟩ := h
    obtain ⟨hsmaller, hzero⟩ := hfirst.smaller hnext
    rw [List.foldl_cons, ih (List.forall_mem_cons.2 ⟨hsmaller, hrest⟩)]
    simp only [List.exists_mem_cons_iff, hzero, or_assoc]

variable {frame : Frame Float} {box : Box Float} {sides : Box Rat} {available side : Float} {a b : Rat}

/-- A side has a length, but meets no room or is infinite. -/
def Cramped (side : Float) (room : Rat) : Prop :=
  0 < side ∧ (room = 0 ∨ view side = .infinite false)

theorem size_le_quotient {s : Rat} (ha : 1 ≤ a) (hs : 0 < s) (hlt : s < 2 ^ (1024 : Int)) :
    2 ^ (-1074 : Int) ≤ |a / s| := by
  rw [abs_of_pos (by positivity), le_div_iff₀ hs]
  calc
    (2 : Rat) ^ (-1074 : Int) * s ≤ 2 ^ (-1024 : Int) * 2 ^ (1024 : Int) := by
      gcongr
      . norm_num
      . norm_num
    _ = 1 := by rw [← zpow_add₀ (by norm_num)]; norm_num
    _ ≤ a := ha

theorem exists_amount?_quotient (ha : Denotes available a) (hunit : a = 0 ∨ 1 ≤ a) (hside : Rounded side v)
    (hpos : 0 < v) :
    ∃ q, (view (available / side)).amount? = some q ∧ 0 ≤ q ∧
      (q = 0 ↔ a = 0 ∨ view side = .infinite false) := by
  -- The room is nothing or one unit at least, so that a quotient by a finite side does not vanish.
  cases hside with
  | @finite s hr hx =>
    have hs : 0 < s := lt_of_le_of_ne (hr.nonneg hpos.le) (Ne.symm (hr.eq_zero_iff.not.2 hpos.ne'))
    have hsmall : s < 2 ^ (1024 : Int) := (le_abs_self s).trans_lt hx.abs_lt
    have hnonneg : 0 ≤ a := by rcases hunit with rfl | hone <;> linarith
    have hrounded := ha.rounded_div hx hs.ne' (hunit.imp_right fun hone => size_le_quotient hone hs hsmall)
    obtain ⟨q, hq, hq', hzero⟩ := hrounded.exists_amount? (by positivity)
    have hfinite : view side ≠ .infinite false := by
      obtain ⟨b, hview, -⟩ := hx
      rw [hview]
      simp
    refine ⟨q, hq, hq', ?_⟩
    rw [hzero, div_eq_zero_iff, or_iff_left hs.ne', or_iff_left hfinite]
  | infinite hne hx =>
    have hview : view side = .infinite false := by
      rw [hx, decide_eq_false (not_lt.2 hpos.le)]
    refine ⟨_, (denotes_div_infinite ha hview).amount?, by norm_num, ?_⟩
    exact iff_of_true (by norm_num) (.inr hview)

theorem isScale_quotient (ha : Denotes available a) (hunit : a = 0 ∨ 1 ≤ a) (hside : Rounded side v)
    (hv : 0 ≤ v) (hpos : 0 < side) :
    IsScale (available / side) ∧ ((available / side == 0) = true ↔ Cramped side a) := by
  obtain ⟨q, hq, hnonneg, hzero⟩ := exists_amount?_quotient ha hunit hside ((hside.pos_iff hv).1 hpos)
  refine ⟨⟨q, hq, hnonneg⟩, ?_⟩
  rw [beq_zero_iff_of_amount? hq, hzero]
  exact (and_iff_right hpos).symm

theorem mem_scales_iff_of_float :
    x ∈ scales frame box ↔ 0 < box.width ∧ frame.width / box.width = x ∨
      0 < box.height ∧ frame.height / box.height = x := by
  have hbelow (side : Float) : Coordinate.below (Coordinate.ofInt 0) side = decide (0 < side) := rfl
  unfold scales
  simp only [hbelow, List.mem_filterMap, List.mem_cons, List.not_mem_nil, or_false]
  constructor
  . rintro ⟨_, rfl | rfl, h⟩
    . exact .inl (by simpa using h)
    . exact .inr (by simpa using h)
  . rintro (h | h)
    . exact ⟨_, .inl rfl, by simpa using h⟩
    . exact ⟨_, .inr rfl, by simpa using h⟩

/-- What a frame has room for: nothing in a direction, or a unit at least. -/
structure HasRoom (frame : Frame Float) (a b : Rat) : Prop where
  width : Denotes frame.width a
  height : Denotes frame.height b
  width_unit : a = 0 ∨ 1 ≤ a
  height_unit : b = 0 ∨ 1 ≤ b

theorem scaleOf_beq_zero_iff (hbox : box.HasSides sides) (hframe : HasRoom frame a b) :
    (scaleOf frame box == 0) = true ↔ Cramped box.width a ∨ Cramped box.height b := by
  have hwidth : Rounded box.width (sides.right - sides.left) := hbox.right.rounded_sub hbox.left
  have hheight : Rounded box.height (sides.top - sides.bottom) := hbox.top.rounded_sub hbox.bottom
  have hacross := isScale_quotient hframe.width hframe.width_unit hwidth (sub_nonneg.2 hbox.left_le)
  have hupward := isScale_quotient hframe.height hframe.height_unit hheight (sub_nonneg.2 hbox.bottom_le)
  unfold scaleOf
  cases hscales : scales frame box with
  | nil =>
    have hnone (x : Float) : ¬(0 < box.width ∧ frame.width / box.width = x ∨
        0 < box.height ∧ frame.height / box.height = x) := by
      rw [← mem_scales_iff_of_float, hscales]
      exact List.not_mem_nil
    refine iff_of_false (by decide +kernel) ?_
    rintro (hcramped | hcramped)
    . exact hnone _ (.inl ⟨hcramped.1, rfl⟩)
    . exact hnone _ (.inr ⟨hcramped.1, rfl⟩)
  | cons first rest =>
    have hall : ∀ x ∈ first :: rest, IsScale x := by
      intro x hx
      rw [← hscales, mem_scales_iff_of_float] at hx
      rcases hx with ⟨hpos, rfl⟩ | ⟨hpos, rfl⟩
      . exact (hacross hpos).1
      . exact (hupward hpos).1
    rw [foldl_smaller_beq_zero_iff hall, ← hscales]
    simp only [mem_scales_iff_of_float]
    constructor
    . rintro ⟨x, ⟨hpos, rfl⟩ | ⟨hpos, rfl⟩, hzero⟩
      . exact .inl ((hacross hpos).2.1 hzero)
      . exact .inr ((hupward hpos).2.1 hzero)
    . rintro (hcramped | hcramped)
      . exact ⟨_, .inl ⟨hcramped.1, rfl⟩, (hacross hcramped.1).2.2 hcramped⟩
      . exact ⟨_, .inr ⟨hcramped.1, rfl⟩, (hupward hcramped.1).2.2 hcramped⟩

end Fit

end TurtleCurves
