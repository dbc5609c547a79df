import TurtleCurves.Proofs.Binary.Arithmetic

/-!
This module contains courses of doubles from one whole number to another, as they are computed in equal steps.
However the steps are rounded, a course never turns back and never passes its goal.
-/

namespace TurtleCurves
namespace Binary

/-- Numbers that begin at a start and come closer to a goal, without turning back and without passing it. -/
structure Towards (steps : Nat) (start goal : Rat) (course : Nat → Rat) : Prop where
  begins : course 0 = start
  rises : start ≤ goal → ∀ i j, i ≤ j → j < steps → course i ≤ course j ∧ course j ≤ goal
  falls : goal ≤ start → ∀ i j, i ≤ j → j < steps → goal ≤ course j ∧ course j ≤ course i

namespace Towards

variable {steps i : Nat} {start goal : Rat} {course course' : Nat → Rat}

theorem add_right (h : Towards steps start goal course) (c : Rat) :
    Towards steps (start + c) (goal + c) (fun i => course i + c) where
  begins := by rw [h.begins]
  rises hle i j hij hj := by
    obtain ⟨hrise, hmost⟩ := h.rises (by linarith) i j hij hj
    exact ⟨by linarith, by linarith⟩
  falls hle i j hij hj := by
    obtain ⟨hleast, hfall⟩ := h.falls (by linarith) i j hij hj
    exact ⟨by linarith, by linarith⟩

theorem neg (h : Towards steps start goal course) : Towards steps (-start) (-goal) (fun i => -course i) where
  begins := by rw [h.begins]
  rises hle i j hij hj := by
    obtain ⟨hleast, hfall⟩ := h.falls (by linarith) i j hij hj
    exact ⟨by linarith, by linarith⟩
  falls hle i j hij hj := by
    obtain ⟨hrise, hmost⟩ := h.rises (by linarith) i j hij hj
    exact ⟨by linarith, by linarith⟩

theorem mul_right_of_nonneg (h : Towards steps 0 1 course) {c : Rat} (hc : 0 ≤ c) :
    Towards steps 0 c (fun i => course i * c) where
  begins := by rw [h.begins, zero_mul]
  rises _ i j hij hj := by
    obtain ⟨hrise, hmost⟩ := h.rises zero_le_one i j hij hj
    exact ⟨by nlinarith, by nlinarith⟩
  falls hle i j hij hj := by
    obtain rfl : c = 0 := le_antisymm hle hc
    simp

theorem mul_right (h : Towards steps 0 1 course) (c : Rat) :
    Towards steps 0 c (fun i => course i * c) := by
  rcases le_total 0 c with hc | hc
  . exact h.mul_right_of_nonneg hc
  . simpa using (h.mul_right_of_nonneg (neg_nonneg.2 hc)).neg

theorem reach (h : Towards steps start goal course) (hpos : 0 < steps) :
    Towards (steps + 1) start goal (fun i => if i < steps then course i else goal) where
  begins := by rw [if_pos hpos, h.begins]
  rises hle i j hij hj := by
    by_cases hlast : j < steps
    . rw [if_pos hlast, if_pos (hij.trans_lt hlast)]
      exact h.rises hle i j hij hlast
    . rw [if_neg hlast]
      split
      . next hi => exact ⟨(h.rises hle i i le_rfl hi).2, le_rfl⟩
      . exact ⟨le_rfl, le_rfl⟩
  falls hle i j hij hj := by
    by_cases hlast : j < steps
    . rw [if_pos hlast, if_pos (hij.trans_lt hlast)]
      exact h.falls hle i j hij hlast
    . rw [if_neg hlast]
      split
      . next hi => exact ⟨le_rfl, (h.falls hle i i le_rfl hi).1⟩
      . exact ⟨le_rfl, le_rfl⟩

theorem mem (h : Towards steps start goal course) (hi : i < steps) :
    min start goal ≤ course i ∧ course i ≤ max start goal := by
  have hbegins := h.begins
  rcases le_total start goal with hle | hle
  . obtain ⟨hrise, hmost⟩ := h.rises hle 0 i i.zero_le hi
    rw [min_eq_left hle, max_eq_right hle]
    exact ⟨by linarith, hmost⟩
  . obtain ⟨hleast, hfall⟩ := h.falls hle 0 i i.zero_le hi
    rw [min_eq_right hle, max_eq_left hle]
    exact ⟨hleast, by linarith⟩

theorem floor_mem {first last : Int} (h : Towards steps first last course) (hi : i < steps) :
    min first last ≤ ⌊course i⌋ ∧ ⌊course i⌋ ≤ max first last := by
  obtain ⟨hleast, hmost⟩ := h.mem hi
  have hmost : course i ≤ ((max first last : Int) : Rat) := by exact_mod_cast hmost
  have hfloor := Int.floor_le_floor hmost
  rw [Int.floor_intCast] at hfloor
  exact ⟨Int.le_floor.2 (by exact_mod_cast hleast), hfloor⟩

theorem rounded (h : Towards steps start goal course) (hpos : 0 < steps) (hstart : RoundsTo start start)
    (hgoal : RoundsTo goal goal) (hr : ∀ i < steps, RoundsTo (course i) (course' i)) :
    Towards steps start goal course' where
  begins := by
  -- Rounding keeps the order, so that it keeps the course as well.
    have hzero := hr 0 hpos
    rw [h.begins] at hzero
    exact hzero.unique hstart
  rises hle i j hij hj := by
    obtain ⟨hrise, hmost⟩ := h.rises hle i j hij hj
    exact ⟨(hr i (by omega)).mono (hr j hj) hrise, (hr j hj).mono hgoal hmost⟩
  falls hle i j hij hj := by
    obtain ⟨hleast, hfall⟩ := h.falls hle i j hij hj
    exact ⟨hgoal.mono (hr j hj) hleast, (hr j hj).mono (hr i (by omega)) hfall⟩

theorem exists_rounded (h : Towards steps start goal course) (hpos : 0 < steps)
    (hstart : RoundsTo start start) (hgoal : RoundsTo goal goal)
    (hexists : ∀ i < steps, ∃ r, RoundsTo (course i) r) :
    ∃ course', (∀ i < steps, RoundsTo (course i) (course' i)) ∧ Towards steps start goal course' := by
  choose! course' hr using hexists
  exact ⟨course', hr, h.rounded hpos hstart hgoal hr⟩

theorem exists_rounded_of_onGrid {first last : Int} (h : Towards steps first last course)
    (hpos : 0 < steps) (hfirst : |first| < 2 ^ 53)
    (hlast : |last| < 2 ^ 53) (hgrid : ∀ i < steps, OnGrid (course i)) :
    ∃ course', (∀ i < steps, RoundsTo (course i) (course' i)) ∧ Towards steps first last course' := by
  refine h.exists_rounded hpos (roundsTo_intCast hfirst) (roundsTo_intCast hlast) fun i hi => ?_
  refine (hgrid i hi).exists_roundsTo (lt_overflowBound ?_)
  have hfirst : |(first : Rat)| < 2 ^ 53 := by exact_mod_cast hfirst
  have hlast : |(last : Rat)| < 2 ^ 53 := by exact_mod_cast hlast
  obtain ⟨hleast, hmost⟩ := h.mem hi
  rw [abs_lt] at hfirst hlast ⊢
  exact ⟨(lt_min hfirst.1 hlast.1).trans_le hleast, hmost.trans_lt (max_lt hfirst.2 hlast.2)⟩

end Towards

variable {steps : Nat} {rise : Int} {step : Rat}

/--
The error of a rounded step, taken as often as there are steps but for one, is less than the step that is
left, since there are fewer steps than a mantissa can count.
-/
theorem towards_of_nonneg (hnonneg : 0 ≤ rise) (hpos : 0 < steps) (hlt : steps < 2 ^ 53)
    (hstep : RoundsTo (rise / steps) step) : Towards steps 0 rise (fun i => i * step) := by
  have hsteps : (0 : Rat) < steps := by exact_mod_cast hpos
  have hsteps' : (steps : Rat) < 2 ^ 53 := by exact_mod_cast hlt
  have hrise : (0 : Rat) ≤ rise := by exact_mod_cast hnonneg
  have hstep' : 0 ≤ step := hstep.nonneg (by positivity)
  refine ⟨by simp, fun _ i j hij hj => ⟨by gcongr, ?_⟩, fun hle i j hij hj => ?_⟩
  . by_cases hzero : rise = 0
    . obtain rfl := RoundsTo.eq_zero (by simpa [hzero] using hstep)
      simp [hzero]
    have hone : (1 : Rat) ≤ rise := by exact_mod_cast (show 1 ≤ rise by omega)
    have hle := hstep.le_add (size_le_div hone hsteps (hsteps'.trans (by norm_num)))
    have hj' : (j : Rat) + 1 ≤ steps := by exact_mod_cast hj
    have hshare : (j : Rat) * (1 + 1 / 2 ^ 53) ≤ steps := by linarith
    calc
      (j * step : Rat) ≤ j * (rise / steps + rise / steps / 2 ^ 53) := by gcongr
      _ = j * (1 + 1 / 2 ^ 53) * (rise / steps) := by ring
      _ ≤ steps * (rise / steps) := by gcongr
      _ = rise := by field_simp
  . obtain rfl : rise = 0 := by exact_mod_cast le_antisymm hle hrise
    obtain rfl := RoundsTo.eq_zero (by simpa using hstep)
    simp

theorem towards_step (hpos : 0 < steps) (hlt : steps < 2 ^ 53) (hstep : RoundsTo (rise / steps) step) :
    Towards steps 0 rise (fun i => i * step) := by
  rcases le_total 0 rise with hnonneg | hnonpos
  . exact towards_of_nonneg hnonneg hpos hlt hstep
  . have hneg : RoundsTo ((-rise : Int) / steps) (-step) := by
      rw [Int.cast_neg, neg_div]
      exact hstep.neg
    simpa using (towards_of_nonneg (by omega) hpos hlt hneg).neg

theorem cast_steps (hpos : 0 < steps) (hlt : steps < 2 ^ 53) : (1 : Rat) ≤ steps ∧ (steps : Rat) < 2 ^ 64 := by
  have hlt : (steps : Rat) < 2 ^ 53 := by exact_mod_cast hlt
  exact ⟨by exact_mod_cast hpos, hlt.trans (by norm_num)⟩

theorem towards_share (hpos : 0 < steps) : Towards steps 0 1 (fun i => (i : Rat) / steps) := by
  have hsteps : (0 : Rat) < steps := by exact_mod_cast hpos
  refine ⟨by simp, fun _ i j hij hj => ⟨by gcongr, ?_⟩, fun hle => absurd hle (by norm_num)⟩
  rw [div_le_one hsteps]
  exact_mod_cast hj.le

theorem exists_offset_of_step {x : Float} (hrise : |rise| < 2 ^ 53) (hpos : 0 < steps)
    (hlt : steps < 2 ^ 53) (hx : Denotes x step) (hstep : RoundsTo (rise / steps) step) :
    ∃ offset, (∀ i < steps, Denotes (Float.ofNat i * x) (offset i)) ∧
      Towards steps (0 : Int) rise offset := by
  have hcourse : Towards steps (0 : Int) rise (fun i => i * step) := by
    simpa using towards_step hpos hlt hstep
  have hgrid : ∀ i < steps, OnGrid (i * step) := by
    intro i _
    rw [mul_comm]
    exact_mod_cast hstep.onGrid.mul_intCast i
  obtain ⟨offset, hoffset, htowards⟩ :=
    hcourse.exists_rounded_of_onGrid hpos (by norm_num) hrise hgrid
  refine ⟨offset, fun i hi => ?_, htowards⟩
  exact (denotes_ofNat (roundsTo_natCast (hi.trans hlt))).mul hx (hoffset i hi)

theorem exists_offset_of_share {x y : Float} (hrise : |rise| < 2 ^ 53) (hpos : 0 < steps)
    (hlt : steps < 2 ^ 53) (hx : Denotes x steps) (hy : Denotes y rise) :
    ∃ offset, (∀ i < steps, Denotes (Float.ofNat i / x * y) (offset i)) ∧
      Towards steps (0 : Int) rise offset := by
  have hzero : (steps : Rat) ≠ 0 := by exact_mod_cast hpos.ne'
  obtain ⟨hleast, hmost⟩ := cast_steps hpos hlt
  have hexists : ∀ i < steps, ∃ r, RoundsTo ((i : Rat) / steps) r := by
    intro i hi
    have hlt' : |(i : Int)| < 2 ^ 53 := by
      rw [Nat.abs_cast]
      exact_mod_cast hi.trans hlt
    exact_mod_cast exists_roundsTo_div hlt' hleast hmost
  obtain ⟨share, hshare, hshares⟩ := (towards_share hpos).exists_rounded hpos .zero roundsTo_one hexists
  have hcourse : Towards steps (0 : Int) rise (fun i => share i * rise) := by
    simpa using hshares.mul_right rise
  obtain ⟨offset, hoffset, htowards⟩ := hcourse.exists_rounded_of_onGrid hpos (by norm_num) hrise
    fun i hi => (hshare i hi).onGrid.mul_intCast rise
  refine ⟨offset, fun i hi => ?_, htowards⟩
  have hindex := denotes_ofNat (roundsTo_natCast (hi.trans hlt))
  exact (hindex.div hx hzero (hshare i hi)).mul hy (hoffset i hi)

theorem exists_offset (flat : Bool) {x y : Float} (hrise : |rise| < 2 ^ 53) (hpos : 0 < steps)
    (hlt : steps < 2 ^ 53) (hx : Denotes x steps) (hy : Denotes y rise) :
    ∃ offset,
      (∀ i < steps,
        Denotes (if flat then Float.ofNat i / x * y else Float.ofNat i * (y / x)) (offset i)) ∧
        Towards steps (0 : Int) rise offset := by
  cases flat with
  | true =>
    simp only [if_true]
    exact exists_offset_of_share hrise hpos hlt hx hy
  | false =>
    simp only [Bool.false_eq_true, if_false]
    obtain ⟨hleast, hmost⟩ := cast_steps hpos hlt
    obtain ⟨step, hstep⟩ := exists_roundsTo_div hrise hleast hmost
    have hzero : (steps : Rat) ≠ 0 := by exact_mod_cast hpos.ne'
    exact exists_offset_of_step hrise hpos hlt (hy.div hx hzero hstep) hstep

theorem exists_course_of_offset {first last : Int} {offset : Nat → Rat} {f : Nat → Float} {x : Float}
    (hpos : 0 < steps) (hfirst : |first| < 2 ^ 53) (hlast : |last| < 2 ^ 53)
    (h : Towards steps (0 : Int) (last - first : Int) offset)
    (hf : ∀ i < steps, Denotes (f i) (offset i)) (hx : Denotes x first) :
    ∃ course, (∀ i < steps, Denotes (f i + x) (course i)) ∧ Towards steps first last course := by
  have hcourse : Towards steps first last (fun i => offset i + first) := by
    simpa using h.add_right first
  obtain ⟨course, hr, htowards⟩ := hcourse.exists_rounded_of_onGrid hpos hfirst hlast
    fun i hi => (hf i hi).roundsTo.onGrid.add (onGrid_intCast first)
  exact ⟨course, fun i hi => (hf i hi).add hx (hr i hi), htowards⟩

end Binary
end TurtleCurves
