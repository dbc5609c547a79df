import TurtleCurves.Proofs.Binary.Scientific

/-!
This module contains the correctness of shortest decimals: whatever grid they were found on, they lie in
the interval of their double, and are not zero.
-/

namespace TurtleCurves
namespace Decimal

variable {a b c m : Nat} {k e : Int}

def value (d : Decimal) : Rat :=
  d.digits * 10 ^ d.exponent

theorem scaled_eq (a b : Nat) (k e : Int) :
    (a : Rat) * 10 ^ k * (10 ^ (-k).toNat * 2 ^ (-e).toNat)
      = ((a * Nat.pow 10 k.toNat) <<< (-e).toNat : Nat) ∧
    (b : Rat) * 2 ^ e * (10 ^ (-k).toNat * 2 ^ (-e).toNat)
      = ((b * Nat.pow 10 (-k).toNat) <<< e.toNat : Nat) := by
  have hten : (10 : Rat) ^ k * 10 ^ (-k).toNat = 10 ^ k.toNat := by
    rw [← zpow_natCast, ← zpow_natCast]
    rw [← zpow_add₀ (by norm_num)]
    congr 1
    omega
  have htwo : (2 : Rat) ^ e * 2 ^ (-e).toNat = 2 ^ e.toNat := by
    rw [← zpow_natCast, ← zpow_natCast]
    rw [← zpow_add₀ (by norm_num)]
    congr 1
    omega
  refine ⟨?_, ?_⟩
  . rw [Nat.shiftLeft_eq, Nat.pow_eq]
    push_cast
    rw [← hten]
    ring
  . rw [Nat.shiftLeft_eq, Nat.pow_eq]
    push_cast
    rw [← htwo]
    ring

theorem compareScaled_eq_lt : compareScaled a k b e = .lt ↔ (a : Rat) * 10 ^ k < b * 2 ^ e := by
  obtain ⟨hleft, hright⟩ := scaled_eq a b k e
  have hscale : (0 : Rat) < 10 ^ (-k).toNat * 2 ^ (-e).toNat := by positivity
  rw [← mul_lt_mul_iff_of_pos_right hscale]
  rw [hleft, hright]
  rw [Nat.cast_lt]
  exact Nat.compare_eq_lt

theorem compareScaled_eq_gt : compareScaled a k b e = .gt ↔ (b : Rat) * 2 ^ e < a * 10 ^ k := by
  obtain ⟨hleft, hright⟩ := scaled_eq a b k e
  have hscale : (0 : Rat) < 10 ^ (-k).toNat * 2 ^ (-e).toNat := by positivity
  rw [← mul_lt_mul_iff_of_pos_right hscale]
  rw [hleft, hright]
  rw [Nat.cast_lt]
  exact Nat.compare_eq_gt

theorem rounds_of_roundsTo (h : roundsTo c k m e = true) : Binary.Rounds m e (c * 10 ^ k) := by
  unfold roundsTo at h
  simp only at h
  split at h
  . next heven =>
    simp only [Bool.and_eq_true, bne_iff_ne, ne_eq, compareScaled_eq_lt, compareScaled_eq_gt,
      not_lt] at h
    exact ⟨h.1, h.2, fun _ => heven, fun _ => heven⟩
  . simp only [Bool.and_eq_true, beq_iff_eq, compareScaled_eq_lt, compareScaled_eq_gt] at h
    exact ⟨h.1.le, h.2.le, fun heq => absurd heq h.1.ne', fun heq => absurd heq h.2.ne⟩

theorem roundsTo_of_neighbour? (h : neighbour? m e k = some c) : roundsTo c k m e = true := by
  unfold neighbour? at h
  simp only at h
  split at h
  . next hbelow habove =>
    split at h
    . cases h
      exact habove
    . cases h
      exact hbelow
    . split at h
      . cases h
        exact hbelow
      . cases h
        exact habove
  . next hbelow _ =>
    cases h
    exact hbelow
  . next _ habove =>
    cases h
    exact habove
  . cases h

theorem value_ofBinary (negative : Bool) (m : Nat) (e : Int) :
    (ofBinary ⟨negative, m, e⟩).value = m * 2 ^ e := by
  unfold ofBinary value
  by_cases he : 0 ≤ e
  . obtain ⟨k, rfl⟩ := Int.eq_ofNat_of_zero_le he
    simp [Nat.shiftLeft_eq]
  . rw [if_neg he]
    obtain ⟨k, rfl⟩ : ∃ k : Nat, e = -(k : Int) := ⟨(-e).toNat, by omega⟩
    have hten : (10 : Rat) ^ k = 5 ^ k * 2 ^ k := by
      rw [← mul_pow]
      norm_num
    simp only [neg_neg, Int.toNat_natCast, Nat.pow_eq]
    push_cast
    rw [zpow_neg, zpow_neg, zpow_natCast, zpow_natCast]
    rw [hten]
    field_simp

theorem value_trimmed (fuel : Nat) (d : Decimal) : (trimmed fuel d).value = d.value := by
  induction fuel generalizing d with
  | zero => rfl
  | succ fuel ih =>
    unfold trimmed
    split
    . next hzero =>
      have hdigits : (d.digits : Rat) = 10 * (d.digits / 10 : Nat) := by
        exact_mod_cast (by omega : d.digits = 10 * (d.digits / 10))
      rw [ih]
      simp only [value]
      rw [hdigits]
      rw [zpow_add_one₀ (by norm_num)]
      ring
    . rfl

/-- The search finds a decimal in the interval of the double, or falls back on the exact one. -/
theorem rounds_shortest (hc : Binary.Canonical m e) : Binary.Rounds m e (shortest m e).value := by
  unfold shortest
  simp only [value_trimmed]
  cases hfound : (List.range maxDigits).findSome? _ with
  | none =>
    simp only [Option.getD_none]
    rw [value_ofBinary]
    exact hc.rounds
  | some d =>
    obtain ⟨count, -, hcandidate⟩ := List.exists_of_findSome?_eq_some hfound
    obtain ⟨c, hneighbour, rfl⟩ := Option.map_eq_some_iff.1 hcandidate
    exact rounds_of_roundsTo (roundsTo_of_neighbour? hneighbour)

theorem digits_shortest_pos (hc : Binary.Canonical m e) : 0 < (shortest m e).digits := by
  have hpos := (rounds_shortest hc).pos hc.pos
  by_contra hzero
  have hzero : (shortest m e).digits = 0 := by omega
  simp [value, hzero] at hpos

end Decimal
end TurtleCurves
