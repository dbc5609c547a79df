import TurtleCurves.Number
import TurtleCurves.Proofs.Binary.Nearest

/-!
This module contains the rounding of whole numbers to doubles. Unless it is very large there is a double
for a whole number.
-/

namespace TurtleCurves
namespace Binary

variable {m n : Nat} {e : Int}

theorem exists_rounds_natCast (hpos : 0 < n) (hgreatest : n.log2 ≤ 1022) :
    ∃ m e, Canonical m e ∧ Rounds m e n := by
  have hone : (1 : Rat) ≤ n := by exact_mod_cast hpos
  have hlt : n < 2 ^ (n.log2 + 1) := Nat.lt_log2_self
  have hlt : (n : Rat) < 2 ^ ((n.log2 + 1 : Nat) : Int) := by
    rw [zpow_natCast]
    exact_mod_cast hlt
  refine exists_rounds ?_ ((hlt.trans_le ?_).trans two_pow_lt_overflowBound)
  . exact le_trans (zpow_le_one_of_nonpos₀ (by norm_num) (by norm_num)) hone
  . exact zpow_le_zpow_right₀ (by norm_num) (by omega)

theorem isInf_double (hc : Canonical m e) : (double hc).isInf = false := by
  change (Float.Model.pack _).unpack.isInf = false
  rw [unpack_pack hc]
  rfl

theorem isInf_ofNat (hgreatest : n.log2 ≤ 1022) : (Float.ofNat n).isInf = false := by
  by_cases hpos : 0 < n
  . obtain ⟨m, e, hc, hr⟩ := exists_rounds_natCast hpos hgreatest
    have heq : Float.ofNat n = double hc := ofScientific_eq (p := 0) hc hpos (by simpa using hr)
    rw [heq]
    exact isInf_double hc
  . obtain rfl : n = 0 := Nat.eq_zero_of_not_pos hpos
    decide +kernel

end Binary

theorem Number.toFloat?_whole {n : Nat} (hlt : n < 2 ^ 64) :
    (Number.whole n).toFloat? = some (Float.ofNat n) := by
  have hgreatest : n.log2 ≤ 1022 := by
    by_cases hzero : n = 0
    . simp [hzero]
    . have := (Nat.log2_lt hzero).2 hlt
      omega
  have hfinite : (Float.ofInt n).isInf = false := Binary.isInf_ofNat hgreatest
  unfold toFloat?
  simp only [hfinite]
  rfl

end TurtleCurves
