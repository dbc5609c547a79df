import Mathlib
import TurtleCurves.Proofs.Curve.Course
import TurtleCurves.Proofs.Curve.Plot
import TurtleCurves.Proofs.Path.Basic

/-!
This module contains plots over the real numbers. Points are read as complex numbers, so that a step is a
multiple of the direction that it is made in, and where a plot leads is a sum of directions.
-/

namespace TurtleCurves

open Trigonometry

noncomputable instance : Trigonometry ℝ where
  ofInt n := n
  sqrt := Real.sqrt
  power x n := x ^ n
  halfTurn := Real.pi
  cos := Real.cos
  sin := Real.sin
  reduce := toIcoMod Real.two_pi_pos 0

def Point.toComplex (p : Point ℝ) : ℂ := ⟨p.x, p.y⟩

theorem Point.toComplex_inj {p q : Point ℝ} : p.toComplex = q.toComplex ↔ p = q := by
  cases p
  cases q
  simp [toComplex]

/-- The unit step at a heading in degrees. -/
noncomputable def direction (degrees : Int) : ℂ :=
  Complex.exp (degrees * (Real.pi / 180) * Complex.I)

@[simp]
theorem direction_zero : direction 0 = 1 := by
  simp [direction]

theorem direction_add (a b : Int) : direction (a + b) = direction a * direction b := by
  unfold direction
  rw [← Complex.exp_add]
  congr 1
  push_cast
  ring

theorem direction_natCast_mul (n : Nat) (degrees : Int) :
    direction (n * degrees) = direction degrees ^ n := by
  unfold direction
  rw [← Complex.exp_nat_mul]
  congr 1
  push_cast
  ring

theorem direction_90 : direction 90 = Complex.I := by
  have hangle : (90 : ℂ) * (Real.pi / 180) = Real.pi / 2 := by ring
  simp only [direction, Int.cast_ofNat, hangle]
  exact Complex.exp_pi_div_two_mul_I

theorem direction_180 : direction 180 = -1 := by
  have hangle : (180 : ℂ) * (Real.pi / 180) = Real.pi := by ring
  simp only [direction, Int.cast_ofNat, hangle]
  exact Complex.exp_pi_mul_I

theorem direction_add_180 (degrees : Int) : direction (degrees + 180) = -direction degrees := by
  rw [direction_add]
  rw [direction_180]
  ring

theorem map_direction_add (heading : Int) (offsets : List Int) :
    (offsets.map (· + heading)).map direction
      =
    (offsets.map direction).map (direction heading * ·) := by
  simp only [List.map_map]
  apply List.map_congr_left
  intro offset _
  simp only [Function.comp_apply]
  rw [Int.add_comm]
  apply direction_add

theorem exp_reduce (angle : ℝ) :
    Complex.exp ((reduce angle : ℝ) * Complex.I) = Complex.exp (angle * Complex.I) := by
  change Complex.exp ((toIcoMod Real.two_pi_pos 0 angle : ℝ) * Complex.I) = _
  rw [Complex.exp_eq_exp_iff_exists_int]
  refine ⟨-toIcoDiv Real.two_pi_pos 0 angle, ?_⟩
  rw [toIcoMod]
  push_cast
  ring

def Path.lines (path : Path ℝ) : List (ℂ × ℂ) :=
  path.segments.map fun (a, b) => (a.toComplex, b.toComplex)

/-- The lines of a walk that begins at a point and goes on by the given steps. -/
def walk (z : ℂ) : List ℂ → List (ℂ × ℂ)
  | [] => []
  | v :: rest => (z, z + v) :: walk (z + v) rest

theorem walk_append (z : ℂ) (v w : List ℂ) : walk z (v ++ w) = walk z v ++ walk (z + v.sum) w := by
  induction v generalizing z with
  | nil => simp [walk]
  | cons first rest ih => simp [walk, ih, add_assoc]

theorem sum_flatMap_range (parts : Nat → List ℂ) (count : Nat) :
    ((List.range count).flatMap parts).sum = ((List.range count).map fun j => (parts j).sum).sum := by
  rw [List.flatMap_def]
  rw [List.sum_flatten]
  rw [List.map_map]
  rfl

theorem walk_flatMap_range (z : ℂ) (parts : Nat → List ℂ) (count : Nat) :
    walk z ((List.range count).flatMap parts)
      =
    (List.range count).flatMap fun j =>
      walk (z + ((List.range j).map fun i => (parts i).sum).sum) (parts j) := by
  induction count with
  | zero => rfl
  | succ count ih =>
    rw [List.range_succ]
    simp only [List.flatMap_append, List.flatMap_singleton]
    rw [walk_append]
    rw [ih]
    rw [sum_flatMap_range]

namespace Pen

noncomputable def facing (pen : Pen ℝ) : ℂ :=
  Complex.exp (pen.heading * Complex.I)

@[simp]
theorem facing_forward (pen : Pen ℝ) (step : ℝ) : (pen.forward step).facing = pen.facing := rfl

theorem position_fresh : (fresh : Pen ℝ).position.toComplex = 0 := by
  apply Complex.ext <;> simp [fresh, origin, Point.toComplex, ofInt]

theorem facing_fresh : (fresh : Pen ℝ).facing = 1 := by
  simp [fresh, facing, ofInt]

theorem lines_fresh : (fresh : Pen ℝ).path.lines = [] := by
  unfold Path.lines fresh
  rw [Path.segments_beginAt]
  rfl

theorem facing_face (pen : Pen ℝ) (angle : ℝ) :
    (pen.face angle).facing = Complex.exp (angle * Complex.I) := by
  apply exp_reduce

theorem facing_turnDegrees (pen : Pen ℝ) (degrees : Int) :
    (pen.turnDegrees degrees).facing = pen.facing * direction degrees := by
  unfold facing turnDegrees direction
  rw [exp_reduce]
  rw [← Complex.exp_add]
  congr 1
  simp only [ofInt, halfTurn]
  push_cast
  ring

theorem toComplex_forward (pen : Pen ℝ) (step : ℝ) :
    (pen.forward step).position.toComplex = pen.position.toComplex + step * pen.facing := by
  unfold facing
  apply Complex.ext
  . rw [Complex.add_re, Complex.re_ofReal_mul, Complex.exp_ofReal_mul_I_re]
    rfl
  . rw [Complex.add_im, Complex.im_ofReal_mul, Complex.exp_ofReal_mul_I_im]
    rfl

section Forward

variable {pen : Pen ℝ} (h : pen.path.end? = some pen.position) (step : ℝ)
include h

theorem end?_forward : (pen.forward step).path.end? = some (pen.forward step).position := by
  exact Path.end?_extendTo (Path.polylines_ne_of_end? h) (pen.ahead step)

theorem lines_forward :
    (pen.forward step).path.lines
      =
    pen.path.lines ++ [(pen.position.toComplex, (pen.forward step).position.toComplex)] := by
  change (pen.path.extendTo (pen.ahead step)).lines = _
  unfold Path.lines
  rw [Path.segments_extendTo h]
  rw [List.map_append]
  rfl

end Forward

end Pen

theorem Layout.facing_place {l : Layout ℝ} {n : Nat} (h : l.heading n = 0) :
    (l.place n).facing = 1 := by
  unfold place
  rw [Pen.facing_face]
  rw [h]
  simp

namespace Pattern

variable {p : Pattern} {step : ℝ} {pen next moved : Pen ℝ} {s : Symbol} {word rest : List Symbol}

noncomputable def legs (p : Pattern) (word : List Symbol) : List ℂ :=
  (p.headings 0 word).map direction

noncomputable def reach (p : Pattern) (word : List Symbol) : ℂ :=
  (p.legs word).sum

theorem map_direction_headings (p : Pattern) (heading : Int) (word : List Symbol) :
    (p.headings heading word).map direction = (p.legs word).map (direction heading * ·) := by
  unfold legs
  rw [headings_eq_map]
  apply map_direction_add

theorem legs_append (p : Pattern) (v w : List Symbol) :
    p.legs (v ++ w) = p.legs v ++ (p.legs w).map (direction (p.netTurn v) * ·) := by
  rw [← map_direction_headings]
  unfold legs
  rw [headings_append]
  rw [List.map_append]
  rw [Int.zero_add]

theorem reach_append (p : Pattern) (v w : List Symbol) :
    p.reach (v ++ w) = p.reach v + direction (p.netTurn v) * p.reach w := by
  unfold reach
  rw [legs_append]
  rw [List.sum_append]
  rw [List.sum_map_mul_left]
  rw [List.map_id']

theorem legs_of_forward (h : p.motion? s = some .forward) (rest : List Symbol) :
    p.legs (s :: rest) = 1 :: p.legs rest := by
  simp [legs, headings, turnOf, h]

theorem legs_of_not_forward (h : p.motion? s ≠ some .forward) (rest : List Symbol) :
    p.legs (s :: rest) = (p.legs rest).map (direction (p.turnOf s) * ·) := by
  rw [← map_direction_headings]
  simp [legs, headings, h]

@[simp]
theorem reach_nil (p : Pattern) : p.reach [] = 0 := rfl

theorem reach_of_forward (h : p.motion? s = some .forward) (rest : List Symbol) :
    p.reach (s :: rest) = 1 + p.reach rest := by
  unfold reach
  rw [legs_of_forward h]
  rw [List.sum_cons]

theorem reach_of_not_forward (h : p.motion? s ≠ some .forward) (rest : List Symbol) :
    p.reach (s :: rest) = direction (p.turnOf s) * p.reach rest := by
  unfold reach
  rw [legs_of_not_forward h]
  rw [List.sum_map_mul_left]
  rw [List.map_id']

theorem reach_of_turn {degrees : Int} (h : p.motion? s = some (.turn degrees)) (rest : List Symbol) :
    p.reach (s :: rest) = direction degrees * p.reach rest := by
  rw [reach_of_not_forward (by simp [h])]
  simp [turnOf, h]

theorem drawWith_eq_ok (h : p.drawWith step pen s = .ok next) :
    (p.motion? s = some .forward ∧ next = pen.forward step) ∨
      (p.motion? s ≠ some .forward ∧ next.path = pen.path ∧ next.position = pen.position ∧
        next.facing = pen.facing * direction (p.turnOf s)) := by
  unfold drawWith at h
  cases hmotion : p.motion? s with
  | none => simp [hmotion] at h
  | some motion =>
    cases motion with
    | forward =>
      simp only [hmotion, Except.ok.injEq] at h
      exact .inl ⟨rfl, h.symm⟩
    | turn degrees =>
      simp only [hmotion, Except.ok.injEq] at h
      subst h
      refine .inr ⟨by simp, rfl, rfl, ?_⟩
      rw [Pen.facing_turnDegrees]
      simp [turnOf, hmotion]
    | rest =>
      simp only [hmotion, Except.ok.injEq] at h
      subst h
      refine .inr ⟨by simp, rfl, rfl, ?_⟩
      simp [turnOf, hmotion]

theorem follow_cons_eq_ok (h : p.follow step pen (s :: rest) = .ok moved) :
    ∃ next, p.drawWith step pen s = .ok next ∧ p.follow step next rest = .ok moved := by
  unfold follow at h
  cases hdraw : p.drawWith step pen s with
  | error fault => simp [hdraw] at h
  | ok next =>
    rw [hdraw] at h
    exact ⟨next, rfl, h⟩

theorem end?_follow (hend : pen.path.end? = some pen.position)
    (h : p.follow step pen word = .ok moved) :
    moved.path.end? = some moved.position := by
  induction word generalizing pen with
  | nil =>
    cases h
    exact hend
  | cons s rest ih =>
    obtain ⟨next, hnext, hmoved⟩ := follow_cons_eq_ok h
    apply ih _ hmoved
    obtain ⟨_, rfl⟩ | ⟨_, hpath, hposition, _⟩ := drawWith_eq_ok hnext
    . exact Pen.end?_forward hend step
    . rw [hpath, hposition]
      exact hend

theorem position_follow (h : p.follow step pen word = .ok moved) :
    moved.position.toComplex = pen.position.toComplex + step * pen.facing * p.reach word := by
  induction word generalizing pen with
  | nil =>
    cases h
    simp
  | cons s rest ih =>
    obtain ⟨next, hnext, hmoved⟩ := follow_cons_eq_ok h
    rw [ih hmoved]
    obtain ⟨hforward, rfl⟩ | ⟨hforward, _, hposition, hfacing⟩ := drawWith_eq_ok hnext
    . rw [reach_of_forward hforward]
      rw [Pen.toComplex_forward]
      rw [Pen.facing_forward]
      ring
    . rw [reach_of_not_forward hforward]
      rw [hposition, hfacing]
      ring

theorem lines_follow (hend : pen.path.end? = some pen.position)
    (h : p.follow step pen word = .ok moved) :
    moved.path.lines
      =
    pen.path.lines ++ walk pen.position.toComplex ((p.legs word).map (step * pen.facing * ·)) := by
  induction word generalizing pen with
  | nil =>
    cases h
    simp [legs, walk]
  | cons s rest ih =>
    obtain ⟨next, hnext, hmoved⟩ := follow_cons_eq_ok h
    obtain ⟨hforward, rfl⟩ | ⟨hforward, hpath, hposition, hfacing⟩ := drawWith_eq_ok hnext
    . rw [ih (Pen.end?_forward hend step) hmoved]
      rw [Pen.lines_forward hend]
      rw [legs_of_forward hforward]
      rw [Pen.toComplex_forward]
      simp [walk]
    . rw [← hpath, ← hposition] at hend
      rw [ih hend hmoved]
      rw [legs_of_not_forward hforward]
      rw [hpath, hposition, hfacing]
      simp only [List.map_map, Function.comp_def, mul_assoc]

theorem exists_walk (hword : ∀ s ∈ word, p.motion? s ≠ none) :
    ∃ pen, p.follow (1 : ℝ) Pen.fresh word = .ok pen ∧ pen.path.lines = walk 0 (p.legs word) := by
  obtain ⟨pen, hpen⟩ := exists_follow hword (1 : ℝ) Pen.fresh
  refine ⟨pen, hpen, ?_⟩
  have hend : (Pen.fresh : Pen ℝ).path.end? = some Pen.fresh.position := Path.end?_beginAt _ _
  rw [lines_follow hend hpen]
  rw [Pen.lines_fresh, Pen.position_fresh, Pen.facing_fresh]
  simp

theorem exists_plot (hword : ∀ s ∈ word, p.motion? s ≠ none) (l : Layout ℝ) (n : Nat) :
    ∃ pen, p.plot l n word = .ok pen ∧ pen.path.end? = some pen.position ∧
      pen.position.toComplex = l.start.toComplex + l.step n * (l.place n).facing * p.reach word ∧
      pen.path.lines
        = walk l.start.toComplex ((p.legs word).map (l.step n * (l.place n).facing * ·)) := by
  have hend : (l.place n).path.end? = some (l.place n).position := Path.end?_beginAt _ _
  obtain ⟨pen, hpen⟩ := exists_follow hword (l.step n) (l.place n)
  exact ⟨pen, hpen, end?_follow hend hpen, position_follow hpen, lines_follow hend hpen⟩

end Pattern
end TurtleCurves
