import TurtleCurves.Proofs.Binary.Course
import TurtleCurves.Proofs.Binary.Order

/-!
This module contains how far rounding moves a number. A rounded share of a rise and a multiple of a rounded
step, which are the same in exact arithmetic, both come close to it.
-/

namespace TurtleCurves
namespace Binary

variable {m : Nat} {e : Int} {r v : Rat}

theorem Rounds.abs_sub_le (hc : Canonical m e) (hr : Rounds m e v) :
    |m * 2 ^ e - v| ≤ m * 2 ^ e / 2 ^ 53 + 2 ^ (-1075 : Int) := by
  have hunit : (0 : Rat) < 2 ^ e := by positivity
  obtain ⟨hlower, hupper, -, -⟩ := hr.nearest hc.pos
  rw [le_div_iff₀ hunit] at hlower
  rw [div_le_iff₀ hunit] at hupper
  have hhalf : |m * 2 ^ e - v| ≤ 2 ^ e / 2 := abs_sub_le_iff.2 ⟨by linarith, by linarith⟩
  refine hhalf.trans ?_
  rcases hc.full with hfull | rfl
  . have hfull : (2 : Rat) ^ 52 ≤ m := by exact_mod_cast hfull
    have hmantissa : (2 : Rat) ^ 52 * 2 ^ e ≤ m * 2 ^ e := by gcongr
    have hleast : (0 : Rat) ≤ 2 ^ (-1075 : Int) := by positivity
    linarith
  . rw [show (-1075 : Int) = -1074 - 1 by norm_num, zpow_sub_one₀ (by norm_num), ← div_eq_mul_inv]
    exact le_add_of_nonneg_left (by positivity)

theorem RoundsTo.abs_sub_le (h : RoundsTo v r) : |r - v| ≤ |r| / 2 ^ 53 + 2 ^ (-1075 : Int) := by
  cases h with
  | zero => simp
  | @finite m e v s hc hr =>
    have hvalue : (0 : Rat) ≤ m * 2 ^ e := by positivity
    rw [← mul_sub, abs_mul, abs_mul, abs_unit, one_mul, one_mul, abs_of_nonneg hvalue]
    exact hr.abs_sub_le hc

theorem RoundsTo.abs_le_natCast {n : Nat} (h : RoundsTo v r) (hn : n < 2 ^ 53) (hv : |v| ≤ n) : |r| ≤ n := by
  have hround := roundsTo_natCast hn
  obtain ⟨hlow, hhigh⟩ := abs_le.1 hv
  exact abs_le.2 ⟨hround.neg.mono h hlow, h.mono hround hhigh⟩

theorem RoundsTo.abs_sub_le_of_abs_le {n : Nat} (h : RoundsTo v r) (hn : n < 2 ^ 10) (hv : |v| ≤ n) :
    |r - v| ≤ 1 / 2 ^ 42 := by
  have hr : |r| ≤ 2 ^ 10 := (h.abs_le_natCast (hn.trans (by norm_num)) hv).trans (by exact_mod_cast hn.le)
  calc
    |r - v| ≤ |r| / 2 ^ 53 + 2 ^ (-1075 : Int) := h.abs_sub_le
    _ ≤ 2 ^ 10 / 2 ^ 53 + 2 ^ (-44 : Int) := by
      gcongr
      . norm_num
      . norm_num
    _ ≤ 1 / 2 ^ 42 := by norm_num

section Offsets

variable {i w share step offset : Rat} {rise : Int}

theorem abs_rise_le (hrise : |rise| < 2 ^ 8) : |(rise : Rat)| ≤ 2 ^ 8 := by
  exact_mod_cast hrise.le

theorem ratio_le_one (hle : i ≤ w) (hone : 1 ≤ w) : i / w ≤ 1 := by
  rwa [div_le_one (by linarith)]

theorem abs_ratio_le_one (hi : 0 ≤ i) (hle : i ≤ w) (hone : 1 ≤ w) : |i / w| ≤ (1 : Nat) := by
  rw [abs_of_nonneg (by positivity), Nat.cast_one]
  exact ratio_le_one hle hone

theorem abs_share_mul_le (hi : 0 ≤ i) (hle : i ≤ w) (hone : 1 ≤ w) (hrise : |rise| < 2 ^ 8)
    (hshare : RoundsTo (i / w) share) : |share * rise| ≤ (256 : Nat) := by
  have hrise := abs_rise_le hrise
  have hshare := hshare.abs_le_natCast (by norm_num) (abs_ratio_le_one hi hle hone)
  calc
    |share * rise| = |share| * |(rise : Rat)| := abs_mul share rise
    _ ≤ (1 : Nat) * 2 ^ 8 := by gcongr
    _ = (256 : Nat) := by norm_num

theorem abs_share_sub_le (hi : 0 ≤ i) (hle : i ≤ w) (hone : 1 ≤ w) (hrise : |rise| < 2 ^ 8)
    (hshare : RoundsTo (i / w) share) (hoffset : RoundsTo (share * rise) offset) :
    |offset - i / w * rise| ≤ 1 / 2 ^ 33 := by
  -- The share is rounded, and then its product with the rise.
  have hproduct := abs_share_mul_le hi hle hone hrise hshare
  have hrise := abs_rise_le hrise
  calc
    |offset - i / w * rise| ≤ |offset - share * rise| + |share * rise - i / w * rise| := abs_sub_le _ _ _
    _ = |offset - share * rise| + |share - i / w| * |(rise : Rat)| := by rw [← sub_mul, abs_mul]
    _ ≤ 1 / 2 ^ 42 + 1 / 2 ^ 42 * 2 ^ 8 := by
      gcongr
      . exact hoffset.abs_sub_le_of_abs_le (by norm_num) hproduct
      . exact hshare.abs_sub_le_of_abs_le (by norm_num) (abs_ratio_le_one hi hle hone)
    _ ≤ 1 / 2 ^ 33 := by norm_num

theorem abs_steps_sub_le (hone : 1 ≤ w) (hlt : w < 2 ^ 53) (hrise : |rise| < 2 ^ 8)
    (hstep : RoundsTo (rise / w) step) : |w * step - rise| ≤ 1 / 2 ^ 43 := by
  -- Taken as often as there are steps, the error of a step is that of a rounded rise.
  have hpos : 0 < w := by linarith
  have hrise := abs_rise_le hrise
  have hleast : w * 2 ^ (-1075 : Int) ≤ 1 / 2 ^ 44 := by
    calc
      w * 2 ^ (-1075 : Int) ≤ 2 ^ 53 * 2 ^ (-97 : Int) := by
        gcongr
        . norm_num
        . norm_num
      _ = 1 / 2 ^ 44 := by norm_num
  have herror : |w * step - rise| ≤ w * |step| / 2 ^ 53 + 1 / 2 ^ 44 := by
    calc
      |w * step - rise| = |w * (step - rise / w)| := by rw [mul_sub, mul_div_cancel₀ _ hpos.ne']
      _ = w * |step - rise / w| := by rw [abs_mul, abs_of_pos hpos]
      _ ≤ w * (|step| / 2 ^ 53 + 2 ^ (-1075 : Int)) := by
        gcongr
        exact hstep.abs_sub_le
      _ = w * |step| / 2 ^ 53 + w * 2 ^ (-1075 : Int) := by ring
      _ ≤ w * |step| / 2 ^ 53 + 1 / 2 ^ 44 := by gcongr
  have hsize : w * |step| ≤ |(rise : Rat)| + |w * step - rise| := by
    calc
      w * |step| = |w * step| := by rw [abs_mul, abs_of_pos hpos]
      _ = |rise + (w * step - rise)| := by rw [add_sub_cancel]
      _ ≤ |(rise : Rat)| + |w * step - rise| := abs_add_le _ _
  linarith

theorem abs_multiple_exact_sub_le (hi : 0 ≤ i) (hle : i ≤ w) (hone : 1 ≤ w) (hlt : w < 2 ^ 53)
    (hrise : |rise| < 2 ^ 8) (hstep : RoundsTo (rise / w) step) :
    |i * step - i / w * rise| ≤ 1 / 2 ^ 43 := by
  have hpos : w ≠ 0 := by linarith
  calc
    |i * step - i / w * rise| = |i / w * (w * step - rise)| := by
      rw [mul_sub, ← mul_assoc, div_mul_cancel₀ _ hpos]
    _ = |i / w| * |w * step - rise| := abs_mul _ _
    _ ≤ (1 : Nat) * (1 / 2 ^ 43) := by
      gcongr
      . exact abs_ratio_le_one hi hle hone
      . exact abs_steps_sub_le hone hlt hrise hstep
    _ = 1 / 2 ^ 43 := by norm_num

theorem abs_multiple_le (hi : 0 ≤ i) (hle : i ≤ w) (hone : 1 ≤ w) (hlt : w < 2 ^ 53)
    (hrise : |rise| < 2 ^ 8) (hstep : RoundsTo (rise / w) step) : |i * step| ≤ (512 : Nat) := by
  have herror := abs_multiple_exact_sub_le hi hle hone hlt hrise hstep
  have hrise := abs_rise_le hrise
  calc
    |i * step| = |i / w * rise + (i * step - i / w * rise)| := by rw [add_sub_cancel]
    _ ≤ |i / w * rise| + |i * step - i / w * rise| := abs_add_le _ _
    _ = |i / w| * |(rise : Rat)| + |i * step - i / w * rise| := by rw [abs_mul]
    _ ≤ (1 : Nat) * 2 ^ 8 + 1 / 2 ^ 43 := by
      gcongr
      exact abs_ratio_le_one hi hle hone
    _ ≤ (512 : Nat) := by norm_num

theorem abs_multiple_sub_le (hi : 0 ≤ i) (hle : i ≤ w) (hone : 1 ≤ w) (hlt : w < 2 ^ 53)
    (hrise : |rise| < 2 ^ 8) (hstep : RoundsTo (rise / w) step) (hoffset : RoundsTo (i * step) offset) :
    |offset - i / w * rise| ≤ 1 / 2 ^ 33 := by
  -- The step is rounded, and then its multiple.
  have hround := hoffset.abs_sub_le_of_abs_le (by norm_num) (abs_multiple_le hi hle hone hlt hrise hstep)
  have herror := abs_multiple_exact_sub_le hi hle hone hlt hrise hstep
  calc
    |offset - i / w * rise| ≤ |offset - i * step| + |i * step - i / w * rise| := abs_sub_le _ _ _
    _ ≤ 1 / 2 ^ 42 + 1 / 2 ^ 43 := by gcongr
    _ ≤ 1 / 2 ^ 33 := by norm_num

end Offsets

section Doubles

variable {n steps : Nat} {rise : Int} {x y : Float}

theorem lt_of_abs_le_natCast (hn : n < 2 ^ 53) (hv : |v| ≤ n) : |v| < overflowBound :=
  lt_overflowBound (hv.trans_lt (by exact_mod_cast hn))

theorem exists_denotes_share (hn : n ≤ steps) (hpos : 0 < steps) (hlt : steps < 2 ^ 53)
    (hrise : |rise| < 2 ^ 8) (hx : Denotes x steps) (hy : Denotes y rise) :
    ∃ offset, Denotes (Float.ofNat n / x * y) offset ∧ |offset - n / steps * rise| ≤ 1 / 2 ^ 33 := by
  obtain ⟨hone, hmost⟩ := cast_steps hpos hlt
  have hn' : (n : Rat) ≤ steps := by exact_mod_cast hn
  have hn53 : |(n : Int)| < 2 ^ 53 := by
    rw [Nat.abs_cast]
    exact_mod_cast hn.trans_lt hlt
  obtain ⟨share, hshare⟩ := exists_roundsTo_div hn53 hone hmost
  rw [Int.cast_natCast] at hshare
  have hproduct := abs_share_mul_le (by positivity) hn' hone hrise hshare
  obtain ⟨offset, hoffset⟩ :=
    (hshare.onGrid.mul_intCast rise).exists_roundsTo (lt_of_abs_le_natCast (by norm_num) hproduct)
  refine ⟨offset, ?_, abs_share_sub_le (by positivity) hn' hone hrise hshare hoffset⟩
  exact ((denotes_ofNat (roundsTo_natCast (hn.trans_lt hlt))).div hx (by linarith) hshare).mul hy hoffset

theorem exists_denotes_multiple (hn : n ≤ steps) (hpos : 0 < steps) (hlt : steps < 2 ^ 53)
    (hrise : |rise| < 2 ^ 8) (hx : Denotes x steps) (hy : Denotes y rise) :
    ∃ offset, Denotes (Float.ofNat n * (y / x)) offset ∧ |offset - n / steps * rise| ≤ 1 / 2 ^ 33 := by
  obtain ⟨hone, hmost⟩ := cast_steps hpos hlt
  have hn' : (n : Rat) ≤ steps := by exact_mod_cast hn
  have hlt' : (steps : Rat) < 2 ^ 53 := by exact_mod_cast hlt
  obtain ⟨step, hstep⟩ := exists_roundsTo_div (hrise.trans (by norm_num)) hone hmost
  have hproduct := abs_multiple_le (by positivity) hn' hone hlt' hrise hstep
  have hgrid : OnGrid (n * step) := by
    rw [mul_comm]
    exact_mod_cast hstep.onGrid.mul_intCast n
  obtain ⟨offset, hoffset⟩ := hgrid.exists_roundsTo (lt_of_abs_le_natCast (by norm_num) hproduct)
  refine ⟨offset, ?_, abs_multiple_sub_le (by positivity) hn' hone hlt' hrise hstep hoffset⟩
  exact (denotes_ofNat (roundsTo_natCast (hn.trans_lt hlt))).mul (hy.div hx (by linarith) hstep) hoffset

end Doubles

end Binary
end TurtleCurves
