import TurtleCurves.Proofs.Binary.Packing

/-!
This module contains the values of doubles as rational numbers. The order, the rounding down and the signs
that are read off mantissas and exponents are those of the values.
-/

namespace TurtleCurves
namespace Binary

variable {a b : Binary} {e : Int}

def value (b : Binary) : Rat :=
  (if b.negative then -1 else 1) * (b.mantissa * 2 ^ b.exponent)

theorem abs_value_eq (b : Binary) : |b.value| = b.mantissa * 2 ^ b.exponent := by
  have hnonneg : (0 : Rat) ≤ b.mantissa * 2 ^ b.exponent := by positivity
  unfold value
  split
  . rw [neg_one_mul, abs_neg, abs_of_nonneg hnonneg]
  . rw [one_mul, abs_of_nonneg hnonneg]

theorem cast_mantissaAt (h : e ≤ b.exponent) :
    (b.mantissaAt e : Rat) * 2 ^ e = b.mantissa * 2 ^ b.exponent := by
  obtain ⟨k, hk⟩ : ∃ k : Nat, b.exponent = e + k := ⟨(b.exponent - e).toNat, by omega⟩
  unfold mantissaAt
  rw [hk]
  rw [Nat.shiftLeft_eq, show (e + k - e).toNat = k by omega]
  rw [zpow_add₀ (by norm_num), zpow_natCast]
  push_cast
  ring

theorem cast_signedAt (h : e ≤ b.exponent) : (b.signedAt e : Rat) * 2 ^ e = b.value := by
  have hmantissa := cast_mantissaAt h
  unfold signedAt value
  split
  . push_cast
    linarith
  . push_cast
    linarith

theorem floor_eq (b : Binary) : b.floor = ⌊b.value⌋ := by
  have hsigned := cast_signedAt (Int.min_le_left b.exponent 0)
  obtain ⟨k, hk⟩ : ∃ k : Nat, min b.exponent 0 = -(k : Int) :=
    ⟨(-min b.exponent 0).toNat, by omega⟩
  unfold floor
  simp only [hk, neg_neg, Int.toNat_natCast] at hsigned ⊢
  rw [Int.shiftRight_eq_div_pow]
  rw [← hsigned]
  rw [zpow_neg, zpow_natCast, ← div_eq_mul_inv]
  exact_mod_cast (Rat.floor_intCast_div_natCast (b.signedAt (-(k : Int))) (2 ^ k)).symm

theorem compare_eq (a b : Binary) : a.compare b = Ord.compare a.value b.value := by
  have ha := cast_signedAt (Int.min_le_left a.exponent b.exponent)
  have hb := cast_signedAt (Int.min_le_right a.exponent b.exponent)
  have hunit : (0 : Rat) < 2 ^ min a.exponent b.exponent := by positivity
  change Ord.compare (a.signedAt _) (b.signedAt _) = _
  rw [← ha, ← hb]
  rcases lt_trichotomy (a.signedAt (min a.exponent b.exponent))
    (b.signedAt (min a.exponent b.exponent)) with hlt | heq | hgt
  . rw [compare_lt_iff_lt.2 hlt]
    exact (compare_lt_iff_lt.2 (by gcongr)).symm
  . rw [heq]
    rw [compare_eq_iff_eq.2 rfl, compare_eq_iff_eq.2 rfl]
  . rw [compare_gt_iff_gt.2 hgt]
    exact (compare_gt_iff_gt.2 (by gcongr)).symm

theorem value_ofInt (n : Int) : (ofInt n).value = n := by
  have hvalue := cast_signedAt (b := ofInt n) (e := 0) le_rfl
  rw [signedAt_ofInt] at hvalue
  simpa using hvalue.symm

end Binary
end TurtleCurves
