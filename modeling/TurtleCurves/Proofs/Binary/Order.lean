import TurtleCurves.Proofs.Binary.Arithmetic

/-!
This module contains the comparison of doubles. Finite doubles compare as their values do.
-/

namespace TurtleCurves
namespace Binary

open Float.Model (UnpackedFloat)
open Float.Model.UnpackedFloat (Sign)

variable {x y : Float} {a b : UnpackedFloat} {m m' : Nat} {e e' : Int} {v w : Rat}

theorem Canonical.value_pos (h : Canonical m e) : (0 : Rat) < m * 2 ^ e := by
  have := h.pos
  positivity

theorem Canonical.lt_of_exponent_lt (h : Canonical m e) (h' : Canonical m' e') (hlt : e < e') :
    (m * 2 ^ e : Rat) < m' * 2 ^ e' := by
  -- The exponent decides before the mantissa does.
  have hfull : 2 ^ 52 ≤ m' := h'.full.resolve_right (by have := h.least_le; omega)
  have hunit : (0 : Rat) < 2 ^ e := by positivity
  calc
    (m * 2 ^ e : Rat) < 2 ^ 53 * 2 ^ e := by
      gcongr
      exact_mod_cast h.lt
    _ = 2 ^ 52 * 2 ^ (e + 1) := by
      rw [zpow_add_one₀ (by norm_num)]
      ring
    _ ≤ m' * 2 ^ e' := by
      gcongr
      . exact_mod_cast hfull
      . norm_num
      . omega

theorem compare_canonical (h : Canonical m e) (h' : Canonical m' e') :
    (Ord.compare e e').then (Ord.compare m m') = Ord.compare (m * 2 ^ e : Rat) (m' * 2 ^ e') := by
  rcases lt_trichotomy e e' with hlt | rfl | hgt
  . rw [compare_lt_iff_lt.2 hlt, compare_lt_iff_lt.2 (h.lt_of_exponent_lt h' hlt)]
    rfl
  . have hunit : (0 : Rat) < 2 ^ e := by positivity
    rw [compare_eq_iff_eq.2 rfl, Ordering.eq_then]
    rcases lt_trichotomy m m' with hlt | rfl | hgt
    . rw [compare_lt_iff_lt.2 hlt]
      exact (compare_lt_iff_lt.2 (by gcongr)).symm
    . rw [compare_eq_iff_eq.2 rfl, compare_eq_iff_eq.2 rfl]
    . rw [compare_gt_iff_gt.2 hgt]
      exact (compare_gt_iff_gt.2 (by gcongr)).symm
  . rw [compare_gt_iff_gt.2 hgt, compare_gt_iff_gt.2 (h'.lt_of_exponent_lt h hgt)]
    rfl

theorem compare_neg (v w : Rat) : Ord.compare (-v) (-w) = (Ord.compare v w).swap := by
  rcases lt_trichotomy v w with hlt | rfl | hgt
  . rw [compare_lt_iff_lt.2 hlt]
    exact compare_gt_iff_gt.2 (neg_lt_neg hlt)
  . rw [compare_eq_iff_eq.2 rfl, compare_eq_iff_eq.2 rfl]
    rfl
  . rw [compare_gt_iff_gt.2 hgt]
    exact compare_lt_iff_lt.2 (neg_lt_neg hgt)

theorem unit_negative : unit .negative = -1 := by
  norm_num [unit, Sign.apply]

theorem abs_unit (s : Sign) : |unit s| = 1 := by
  cases s with
  | positive => rw [unit_positive, abs_one]
  | negative => rw [unit_negative, abs_neg, abs_one]

theorem unit_ne_zero (s : Sign) : unit s ≠ 0 := by
  rw [← abs_pos, abs_unit]
  exact one_pos

theorem RoundsTo.eq_zero_iff {r : Rat} (h : RoundsTo v r) : r = 0 ↔ v = 0 := by
  cases h with
  | zero => rfl
  | finite s hc hr =>
    have hvalue := (hr.pos hc.pos).ne'
    exact iff_of_false (mul_ne_zero (unit_ne_zero s) hc.value_pos.ne') (mul_ne_zero (unit_ne_zero s) hvalue)

theorem Unpacked.compare_eq (ha : Unpacked a v) (hb : Unpacked b w) :
    UnpackedFloat.compare a b = some (Ord.compare v w) := by
  cases ha with
  | zero s =>
    cases hb with
    | zero t => rfl
    | finite t hc =>
      have hpos := hc.value_pos
      cases t with
      | positive =>
        rw [unit_positive, one_mul, compare_lt_iff_lt.2 hpos]
        rfl
      | negative =>
        rw [unit_negative, neg_one_mul, compare_gt_iff_gt.2 (neg_lt_zero.2 hpos)]
        rfl
  | finite s hc =>
    have hpos := hc.value_pos
    cases hb with
    | zero t =>
      cases s with
      | positive =>
        rw [unit_positive, one_mul, compare_gt_iff_gt.2 hpos]
        rfl
      | negative =>
        rw [unit_negative, neg_one_mul, compare_lt_iff_lt.2 (neg_lt_zero.2 hpos)]
        rfl
    | finite t hc' =>
      have hpos' := hc'.value_pos
      cases s with
      | positive =>
        cases t with
        | positive =>
          rw [unit_positive, one_mul, one_mul, ← compare_canonical hc hc']
          rfl
        | negative =>
          rw [unit_positive, unit_negative, compare_gt_iff_gt.2 (by linarith)]
          rfl
      | negative =>
        cases t with
        | positive =>
          rw [unit_positive, unit_negative, compare_lt_iff_lt.2 (by linarith)]
          rfl
        | negative =>
          rw [unit_negative, neg_one_mul, neg_one_mul, compare_neg, ← compare_canonical hc hc']
          rfl

theorem lt_iff_compare : x < y ↔ UnpackedFloat.compare x.toModel.unpack y.toModel.unpack = some .lt := by
  change decide (UnpackedFloat.lt x.toModel.unpack y.toModel.unpack = true) = true ↔ _
  rw [decide_eq_true_iff, UnpackedFloat.lt, beq_iff_eq]

theorem beq_iff_compare :
    (x == y) = true ↔ UnpackedFloat.compare x.toModel.unpack y.toModel.unpack = some .eq := by
  change UnpackedFloat.beq x.toModel.unpack y.toModel.unpack = true ↔ _
  rw [UnpackedFloat.beq, beq_iff_eq]

theorem Denotes.lt_iff (hx : Denotes x v) (hy : Denotes y w) : x < y ↔ v < w := by
  rw [lt_iff_compare, hx.unpacked.compare_eq hy.unpacked, Option.some.injEq, compare_lt_iff_lt]

theorem Denotes.beq_iff (hx : Denotes x v) (hy : Denotes y w) : (x == y) = true ↔ v = w := by
  rw [beq_iff_compare, hx.unpacked.compare_eq hy.unpacked, Option.some.injEq, compare_eq_iff_eq]

theorem denotes_zero : Denotes 0 0 :=
  denotes_ofNat (n := 0) (by simpa using RoundsTo.zero)

theorem Denotes.pos_iff (hx : Denotes x v) : 0 < x ↔ 0 < v :=
  denotes_zero.lt_iff hx

end Binary
end TurtleCurves
