import TurtleCurves.Proofs.Binary.Nearest

/-!
This module contains the rounding of signed numbers to doubles, as a relation between exact values. Rounding
keeps the order and whatever is a double already; whole numbers, multiples of the least double and quotients
of normal size have doubles to which they are rounded.
-/

namespace TurtleCurves
namespace Binary

open Float.Model.UnpackedFloat (Sign)

variable {s t : Sign} {m n : Nat} {e : Int} {r r' v v' w : Rat}

def unit (s : Sign) : Rat :=
  (s.apply 1 : Int)

theorem unit_positive : unit .positive = 1 :=
  Int.cast_one

theorem unit_neg (s : Sign) : unit (-s) = -unit s := by
  have happly : (-s).apply 1 = -s.apply 1 := by cases s <;> rfl
  unfold unit
  rw [happly]
  push_cast
  rfl

theorem unit_mul (s t : Sign) : unit (s * t) = unit s * unit t := by
  have happly : (s * t).apply 1 = s.apply 1 * t.apply 1 := by cases s <;> cases t <;> rfl
  unfold unit
  rw [happly]
  push_cast
  rfl

theorem unit_div (s t : Sign) : unit (s / t) = unit s / unit t := by
  have hproduct : s / t = s * t := by cases s <;> cases t <;> rfl
  have hinverse : (unit t)⁻¹ = unit t := by cases t <;> norm_num [unit, Sign.apply]
  rw [hproduct, unit_mul]
  rw [div_eq_mul_inv, hinverse]

theorem cast_apply (s : Sign) (n : Int) : (s.apply n : Rat) = unit s * n := by
  cases s <;> simp [unit, Sign.apply]

theorem unit_mul_injective (h : unit s * v = unit t * w) (hv : 0 < v) (hw : 0 < w) : s = t ∧ v = w := by
  cases s <;> cases t <;> simp [unit, Sign.apply] at h
  . exact ⟨rfl, h⟩
  . linarith
  . linarith
  . exact ⟨rfl, h⟩

/-- A number and the value of the double to which it is rounded. -/
inductive RoundsTo : Rat → Rat → Prop
  | zero : RoundsTo 0 0
  | finite {m : Nat} {e : Int} {v : Rat} (s : Sign) (hc : Canonical m e) (hr : Rounds m e v) :
      RoundsTo (unit s * v) (unit s * (m * 2 ^ e))

namespace RoundsTo

theorem of_pos (h : RoundsTo (unit s * v) r) (hv : 0 < v) :
    ∃ m e, Canonical m e ∧ Rounds m e v ∧ r = unit s * (m * 2 ^ e) := by
  generalize hw : unit s * v = w at h
  cases h with
  | zero =>
    exfalso
    cases s <;> simp [unit, Sign.apply] at hw <;> linarith
  | finite t hc hr =>
    obtain ⟨rfl, rfl⟩ := unit_mul_injective hw hv (hr.pos hc.pos)
    exact ⟨_, _, hc, hr, rfl⟩

theorem nonneg (h : RoundsTo v r) (hv : 0 ≤ v) : 0 ≤ r := by
  cases h with
  | zero => exact le_rfl
  | @finite m e v s hc hr =>
    have hpos := hr.pos hc.pos
    cases s with
    | positive =>
      simp only [unit, Sign.apply, Int.cast_one, one_mul]
      positivity
    | negative =>
      simp only [unit, Sign.apply, Int.cast_neg, Int.cast_one] at hv
      linarith

theorem neg (h : RoundsTo v r) : RoundsTo (-v) (-r) := by
  cases h with
  | zero => simpa using zero
  | finite s hc hr =>
    rw [← neg_mul, ← neg_mul, ← unit_neg]
    exact finite (-s) hc hr

theorem nonpos (h : RoundsTo v r) (hv : v ≤ 0) : r ≤ 0 := by
  have := h.neg.nonneg (by linarith)
  linarith

theorem eq_positive (h : RoundsTo v r) (hv : 0 < v) :
    ∃ m e, Canonical m e ∧ Rounds m e v ∧ r = m * 2 ^ e := by
  have hsigned : RoundsTo (unit .positive * v) r := by rwa [unit_positive, one_mul]
  obtain ⟨m, e, hc, hr, rfl⟩ := hsigned.of_pos hv
  exact ⟨m, e, hc, hr, by rw [unit_positive, one_mul]⟩

theorem mono_of_pos (h : RoundsTo v r) (h' : RoundsTo v' r') (hv : 0 < v) (hle : v ≤ v') : r ≤ r' := by
  obtain ⟨m, e, hc, hr, rfl⟩ := h.eq_positive hv
  obtain ⟨m', e', hc', hr', rfl⟩ := h'.eq_positive (hv.trans_le hle)
  exact hr.mono hc hc' hr' hle

theorem mono (h : RoundsTo v r) (h' : RoundsTo v' r') (hle : v ≤ v') : r ≤ r' := by
  rcases lt_or_ge 0 v with hpos | hnonpos
  . exact h.mono_of_pos h' hpos hle
  . rcases lt_or_ge v' 0 with hneg | hnonneg
    . have := h'.neg.mono_of_pos h.neg (by linarith) (by linarith)
      linarith
    . exact (h.nonpos hnonpos).trans (h'.nonneg hnonneg)

theorem unique (h : RoundsTo v r) (h' : RoundsTo v r') : r = r' :=
  le_antisymm (h.mono h' le_rfl) (h'.mono h le_rfl)

theorem eq_zero (h : RoundsTo 0 r) : r = 0 :=
  h.unique zero

end RoundsTo

theorem exists_roundsTo (hleast : 2 ^ (-1074 : Int) ≤ |v|) (hlt : |v| < overflowBound) :
    ∃ r, RoundsTo v r := by
  obtain ⟨m, e, hc, hr⟩ := exists_rounds hleast hlt
  rcases abs_choice v with habs | habs
  . rw [habs] at hr
    exact ⟨_, by simpa [unit, Sign.apply] using RoundsTo.finite .positive hc hr⟩
  . rw [habs] at hr
    exact ⟨_, by simpa [unit, Sign.apply] using RoundsTo.finite .negative hc hr⟩

theorem roundsTo_natCast (h : n < 2 ^ 53) : RoundsTo n n := by
  by_cases hpos : 0 < n
  . obtain ⟨-, hc⟩ := canonical_filled hpos h
    have hvalue : ((n <<< (52 - n.log2) : Nat) : Rat) * 2 ^ ((n.log2 : Int) - 52) = n := by
      have hlog : n.log2 ≤ 52 := by
        have := (Nat.log2_lt hpos.ne').2 h
        omega
      rw [Nat.shiftLeft_eq]
      rw [show ((n.log2 : Int) - 52) = -((52 - n.log2 : Nat) : Int) by omega]
      rw [zpow_neg, zpow_natCast]
      push_cast
      field_simp
    have hrounds := RoundsTo.finite .positive hc hc.rounds
    rwa [hvalue, unit_positive, one_mul] at hrounds
  . obtain rfl : n = 0 := Nat.eq_zero_of_not_pos hpos
    simpa using RoundsTo.zero

theorem roundsTo_one : RoundsTo 1 1 := by
  exact_mod_cast roundsTo_natCast (n := 1) (by norm_num)

theorem roundsTo_intCast {n : Int} (h : |n| < 2 ^ 53) : RoundsTo n n := by
  obtain ⟨k, rfl | rfl⟩ := n.eq_nat_or_neg
  . exact_mod_cast roundsTo_natCast (by simpa using h)
  . have hround := roundsTo_natCast (n := k) (by simpa using h)
    simpa using hround.neg

def OnGrid (v : Rat) : Prop :=
  ∃ k : Int, v = k * 2 ^ (-1074 : Int)

theorem OnGrid.add (h : OnGrid v) (h' : OnGrid w) : OnGrid (v + w) := by
  obtain ⟨k, rfl⟩ := h
  obtain ⟨l, rfl⟩ := h'
  exact ⟨k + l, by rw [Int.cast_add, add_mul]⟩

theorem OnGrid.mul_intCast (h : OnGrid v) (n : Int) : OnGrid (v * n) := by
  obtain ⟨k, rfl⟩ := h
  exact ⟨k * n, by rw [Int.cast_mul, mul_right_comm]⟩

theorem onGrid_intCast (n : Int) : OnGrid n := by
  obtain ⟨k, hk⟩ : ∃ k : Nat, (-1074 : Int) = -k := ⟨1074, rfl⟩
  refine ⟨n * 2 ^ k, ?_⟩
  rw [hk, zpow_neg, zpow_natCast]
  push_cast
  rw [mul_assoc, mul_inv_cancel₀ (by positivity), mul_one]

theorem RoundsTo.onGrid (h : RoundsTo v r) : OnGrid r := by
  cases h with
  | zero => exact ⟨0, by simp⟩
  | @finite m e v s hc hr =>
    obtain ⟨k, hk⟩ : ∃ k : Nat, e = -1074 + k := ⟨(e + 1074).toNat, by have := hc.least_le; omega⟩
    refine ⟨s.apply (m * 2 ^ k : Nat), ?_⟩
    rw [cast_apply]
    rw [hk, zpow_add₀ (by norm_num), zpow_natCast]
    rw [Int.cast_natCast, Nat.cast_mul, Nat.cast_pow, Nat.cast_ofNat]
    rw [mul_assoc, mul_assoc, mul_comm (2 ^ k : Rat)]

theorem OnGrid.le_abs (h : OnGrid v) (hne : v ≠ 0) : 2 ^ (-1074 : Int) ≤ |v| := by
  obtain ⟨k, rfl⟩ := h
  have hk : k ≠ 0 := by
    rintro rfl
    exact hne (by simp)
  have hone : (1 : Rat) ≤ |(k : Rat)| := by exact_mod_cast Int.one_le_abs hk
  rw [abs_mul, abs_of_pos (show (0 : Rat) < 2 ^ (-1074 : Int) by positivity)]
  exact le_mul_of_one_le_left (by positivity) hone

theorem OnGrid.exists_roundsTo (h : OnGrid v) (hlt : |v| < overflowBound) : ∃ r, RoundsTo v r := by
  by_cases hzero : v = 0
  . exact ⟨0, by simpa [hzero] using RoundsTo.zero⟩
  . exact Binary.exists_roundsTo (h.le_abs hzero) hlt

theorem RoundsTo.le_add (h : RoundsTo v r) (hleast : 2 ^ (-1021 : Int) ≤ v) : r ≤ v + v / 2 ^ 53 := by
  obtain ⟨m, e, hc, hr, rfl⟩ := h.eq_positive (lt_of_lt_of_le (by positivity) hleast)
  refine hr.le_add hc ?_
  by_contra hleast'
  have hbinade := hr.lt_binade hc
  have hunit : (0 : Rat) < 2 ^ e := by positivity
  have hpower : (2 : Rat) ^ 53 * 2 ^ e ≤ 2 ^ (-1021 : Int) := by
    rw [← zpow_natCast, ← zpow_add₀ (by norm_num)]
    exact zpow_le_zpow_right₀ (by norm_num) (by push_cast; omega)
  linarith

theorem lt_overflowBound {v : Rat} (h : v < 2 ^ 53) : v < overflowBound := by
  refine (h.trans_le ?_).trans two_pow_lt_overflowBound
  rw [← zpow_natCast]
  exact zpow_le_zpow_right₀ (by norm_num) (by norm_num)

theorem size_le_div {v w : Rat} (hleast : 1 ≤ v) (hpos : 0 < w) (hlt : w < 2 ^ 64) :
    2 ^ (-1021 : Int) ≤ v / w := by
  rw [le_div_iff₀ hpos]
  calc
    (2 : Rat) ^ (-1021 : Int) * w ≤ 2 ^ (-64 : Int) * 2 ^ 64 := by
      gcongr
      . norm_num
      . norm_num
    _ = 1 := by norm_num
    _ ≤ v := hleast

theorem exists_roundsTo_div {rise : Int} {w : Rat} (hrise : |rise| < 2 ^ 53) (hone : 1 ≤ w) (hlt : w < 2 ^ 64) :
    ∃ r, RoundsTo (rise / w) r := by
  by_cases hzero : rise = 0
  . exact ⟨0, by simpa [hzero] using RoundsTo.zero⟩
  have hpos : 0 < w := by linarith
  have hleast : (1 : Rat) ≤ |(rise : Rat)| := by exact_mod_cast Int.one_le_abs hzero
  have hmost : |(rise : Rat)| < 2 ^ 53 := by exact_mod_cast hrise
  have habs : |rise / w| = |(rise : Rat)| / w := by
    rw [abs_div, abs_of_pos hpos]
  refine exists_roundsTo ?_ ?_
  . rw [habs]
    exact (zpow_le_zpow_right₀ (by norm_num) (by norm_num)).trans (size_le_div hleast hpos hlt)
  . rw [habs]
    exact lt_overflowBound ((div_le_self (abs_nonneg _) hone).trans_lt hmost)

end Binary
end TurtleCurves
