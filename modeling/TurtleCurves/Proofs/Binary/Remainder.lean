import TurtleCurves.Proofs.Binary.Range

/-!
This module contains the remainders of divisions of doubles. Such a remainder is a double itself, so it is
computed without an error. It has the sign of the dividend; the one that is never negative differs from it by
the divisor, if it does.
-/

namespace TurtleCurves
namespace Binary

open Float.Model (UnpackedFloat)
open Float.Model.UnpackedFloat

variable {x : Float} {a b : Binary} {n : Nat} {e : Int} {r v w : Rat}

/-- What is left of a number after taking away whole multiples of another one: not negative, and less than that. -/
def rest (v w : Rat) : Rat :=
  v - ⌊v / w⌋ * w

theorem rest_nonneg (hw : 0 < w) : 0 ≤ rest v w :=
  Int.sub_floor_div_mul_nonneg v hw

theorem rest_lt (hw : 0 < w) : rest v w < w :=
  Int.sub_floor_div_mul_lt v hw

theorem rest_eq {k : Int} (hv : v = k * w + r) (hnonneg : 0 ≤ r) (hlt : r < w) : rest v w = r := by
  have hw : 0 < w := hnonneg.trans_lt hlt
  have hquotient : v / w = k + r / w := by
    rw [hv, add_div, mul_div_cancel_right₀ _ hw.ne']
  have hfloor : ⌊v / w⌋ = k := by
    rw [hquotient, Int.floor_intCast_add, Int.floor_eq_zero_iff.2, add_zero]
    exact ⟨by positivity, (div_lt_one hw).2 hlt⟩
  unfold rest
  rw [hfloor, hv]
  ring

theorem rest_eq_add {k : Int} (hv : v = k * w + r) (hneg : r < 0) (hlower : -w < r) : rest v w = r + w := by
  have hmoved : v = (k - 1 : Int) * w + (r + w) := by
    rw [hv]
    push_cast
    ring
  exact rest_eq hmoved (by linarith) (by linarith)

structure Bounded (b : Binary) : Prop where
  lt : b.mantissa < 2 ^ 53
  least_le : -1074 ≤ b.exponent
  le_greatest : b.exponent ≤ 971

theorem bounded_of_view (h : view x = .finite b) : b.Bounded := by
  unfold view at h
  cases hx : x.toModel.unpack with
  | notANumber | infinity s =>
    rw [hx] at h
    cases h
  | zero s =>
    rw [hx] at h
    cases h
    exact ⟨by norm_num, by norm_num, by norm_num⟩
  | finite s m e hm =>
    rw [hx] at h
    cases h
    have hc := canonical_of_unpack hx
    exact ⟨hc.lt, hc.least_le, hc.le_greatest⟩

theorem exists_canonical (hpos : 0 < n) (hlt : n < 2 ^ 53) (hleast : -1074 ≤ e) (hgreatest : e ≤ 971) :
    ∃ m e', Canonical m e' ∧ (m * 2 ^ e' : Rat) = n * 2 ^ e := by
  obtain ⟨hfull, hc⟩ := canonical_filled hpos hlt
  -- The mantissa is filled up with zeros, as far as the exponent allows.
  obtain ⟨k, hk⟩ : ∃ k, k = min (52 - n.log2) (e + 1074).toNat := ⟨_, rfl⟩
  have hfilled : n <<< k ≤ n <<< (52 - n.log2) := by
    rw [Nat.shiftLeft_eq, Nat.shiftLeft_eq]
    gcongr
    . norm_num
    . omega
  refine ⟨n <<< k, e - k, ⟨?_, hfilled.trans_lt hc.lt, by omega, by omega, ?_⟩, ?_⟩
  . rw [Nat.shiftLeft_eq]
    positivity
  . rcases Nat.le_total (52 - n.log2) (e + 1074).toNat with hle | hle
    . left
      rwa [hk, min_eq_left hle]
    . right
      omega
  . rw [Nat.shiftLeft_eq, zpow_sub₀ (by norm_num), zpow_natCast]
    push_cast
    field_simp

theorem value_eq_unit (b : Binary) :
    b.value = unit (if b.negative then .negative else .positive) * (b.mantissa * 2 ^ b.exponent) := by
  unfold value
  cases b.negative with
  | false => rw [if_neg Bool.false_ne_true, if_neg Bool.false_ne_true, unit_positive]
  | true => rw [if_pos rfl, if_pos rfl, unit_negative]

theorem Bounded.roundsTo (h : b.Bounded) : RoundsTo b.value b.value := by
  rw [value_eq_unit]
  by_cases hzero : b.mantissa = 0
  . rw [hzero, Nat.cast_zero, zero_mul, mul_zero]
    exact .zero
  . obtain ⟨m, e, hc, hvalue⟩ := exists_canonical (Nat.pos_of_ne_zero hzero) h.lt h.least_le h.le_greatest
    rw [← hvalue]
    exact .finite _ hc hc.rounds

theorem denotes_toFloat (h : RoundsTo b.value r) : Denotes b.toFloat r := by
  rw [value_eq_unit] at h
  unfold toFloat
  simp only
  split
  . next hzero =>
    rw [hzero, Nat.cast_zero, zero_mul, mul_zero] at h
    rw [h.eq_zero]
    exact denotes_pack_zero _
  . next hne =>
    have hpos : 0 < b.mantissa := Nat.pos_of_ne_zero hne
    obtain ⟨m, e, hc, hr, rfl⟩ := h.of_pos (by positivity)
    rw [round_eq hpos hc.fits hr]
    exact denotes_pack hc _

theorem value_of_positive (h : b.negative = false) : b.value = b.mantissa * 2 ^ b.exponent := by
  unfold value
  rw [h, if_neg Bool.false_ne_true, one_mul]

theorem negative_of_value_pos (h : 0 < b.value) : b.negative = false := by
  by_contra hnegative
  rw [Bool.not_eq_false] at hnegative
  unfold value at h
  rw [hnegative, if_pos rfl, neg_one_mul, neg_pos] at h
  exact absurd h (not_lt.2 (by positivity))

theorem mantissa_pos_of_value_pos (h : 0 < b.value) : 0 < b.mantissa := by
  by_contra hzero
  rw [value_of_positive (negative_of_value_pos h), Nat.eq_zero_of_not_pos hzero, Nat.cast_zero, zero_mul] at h
  exact lt_irrefl 0 h

theorem value_of_mantissa_zero (h : b.mantissa = 0) : b.value = 0 := by
  unfold value
  rw [h, Nat.cast_zero, zero_mul, mul_zero]

theorem value_neg_of_negative (h : b.negative = true) (hne : b.mantissa ≠ 0) : b.value < 0 := by
  have hpos : 0 < b.mantissa := Nat.pos_of_ne_zero hne
  unfold value
  rw [h, if_pos rfl, neg_one_mul, neg_lt_zero]
  positivity

theorem exists_eq_add_remainder (a : Binary) (hpos : 0 < b.value) :
    ∃ k : Int, a.value = k * b.value + (a.remainder b).value := by
  -- The quotient is cut off towards zero.
  have ha := cast_mantissaAt (Int.min_le_left a.exponent b.exponent)
  have hb' := cast_mantissaAt (Int.min_le_right a.exponent b.exponent)
  have hdivision : (a.mantissaAt (min a.exponent b.exponent) : Rat) =
      b.mantissaAt (min a.exponent b.exponent) *
        (a.mantissaAt (min a.exponent b.exponent) / b.mantissaAt (min a.exponent b.exponent) : Nat) +
        (a.mantissaAt (min a.exponent b.exponent) % b.mantissaAt (min a.exponent b.exponent) : Nat) := by
    exact_mod_cast (Nat.div_add_mod _ _).symm
  rw [value_of_positive (negative_of_value_pos hpos), ← hb']
  unfold value remainder
  simp only
  rw [← ha, hdivision]
  cases a.negative with
  | false =>
    refine ⟨(a.mantissaAt (min a.exponent b.exponent) / b.mantissaAt (min a.exponent b.exponent) : Nat), ?_⟩
    rw [if_neg Bool.false_ne_true, Int.cast_natCast]
    ring
  | true =>
    refine ⟨-(a.mantissaAt (min a.exponent b.exponent) / b.mantissaAt (min a.exponent b.exponent) : Nat), ?_⟩
    rw [if_pos rfl, Int.cast_neg, Int.cast_natCast]
    ring

theorem abs_value_remainder_lt (a : Binary) (hpos : 0 < b.value) : |(a.remainder b).value| < b.value := by
  have hb' := cast_mantissaAt (Int.min_le_right a.exponent b.exponent)
  have hvalue := value_of_positive (negative_of_value_pos hpos)
  rw [hvalue, ← hb'] at hpos ⊢
  have hmantissa : 0 < b.mantissaAt (min a.exponent b.exponent) := by
    by_contra hzero
    rw [Nat.eq_zero_of_not_pos hzero, Nat.cast_zero, zero_mul] at hpos
    exact lt_irrefl 0 hpos
  rw [abs_value_eq]
  unfold remainder
  simp only
  gcongr
  exact_mod_cast Nat.mod_lt _ hmantissa

theorem Bounded.remainder (ha : a.Bounded) (hb : b.Bounded) (hpos : 0 < b.value) : (a.remainder b).Bounded := by
  have hleast : -1074 ≤ min a.exponent b.exponent := le_min ha.least_le hb.least_le
  have hgreatest : min a.exponent b.exponent ≤ 971 := (Int.min_le_left _ _).trans ha.le_greatest
  refine ⟨?_, hleast, hgreatest⟩
  change a.mantissaAt _ % b.mantissaAt _ < 2 ^ 53
  -- One of the two mantissas is not shifted, so the remainder is no longer than that one.
  rcases Int.le_total a.exponent b.exponent with hle | hle
  . rw [Int.min_eq_left hle, mantissaAt_self]
    exact (Nat.mod_le _ _).trans_lt ha.lt
  . rw [Int.min_eq_right hle, mantissaAt_self]
    exact (Nat.mod_lt _ (mantissa_pos_of_value_pos hpos)).trans hb.lt

end Binary
end TurtleCurves
