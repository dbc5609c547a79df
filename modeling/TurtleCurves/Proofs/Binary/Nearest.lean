import TurtleCurves.Proofs.Binary.Scientific

/-!
This module contains what rounding to doubles does to numbers of normal size. Each has a double to which it
is rounded, the order is kept, and nothing grows by more than half a unit of the last bit.
-/

namespace TurtleCurves
namespace Binary

variable {m m' r r' : Nat} {e e' : Int} {q v v' : Rat}

theorem nearest_roundDiv {num den : Nat} (h : 0 < den) :
    Nearest (Decimal.roundDiv num den) ((num : Rat) / den) := by
  have hden : (0 : Rat) < den := by exact_mod_cast h
  have hnonneg : (0 : Rat) ≤ (num % den : Nat) / (den : Rat) := by positivity
  have hquotient : (num : Rat) / den = (num / den : Nat) + (num % den : Nat) / (den : Rat) := by
    rw [div_eq_iff hden.ne', add_mul, div_mul_cancel₀ _ hden.ne']
    exact_mod_cast (Nat.div_add_mod' num den).symm
  rw [hquotient]
  unfold Decimal.roundDiv
  simp only
  split
  . next hbelow =>
    have hrest : (num % den : Nat) / (den : Rat) < 1 / 2 := by
      have hbelow : (2 : Rat) * (num % den : Nat) < den := by exact_mod_cast hbelow
      rw [div_lt_iff₀ hden]
      linarith
    exact ⟨by linarith, by linarith, fun heq => by linarith, fun heq => by linarith⟩
  . next hnotBelow =>
    split
    . next habove =>
      have hrest : 1 / 2 < (num % den : Nat) / (den : Rat) := by
        have habove : (den : Rat) < 2 * (num % den : Nat) := by exact_mod_cast habove
        rw [lt_div_iff₀ hden]
        linarith
      have hless : (num % den : Nat) / (den : Rat) < 1 := by
        rw [div_lt_one hden]
        exact_mod_cast Nat.mod_lt num h
      refine ⟨?_, ?_, fun heq => ?_, fun heq => ?_⟩ <;> push_cast at * <;> linarith
    . next hnotAbove =>
      have hrest : (num % den : Nat) / (den : Rat) = 1 / 2 := by
        have htie : 2 * (num % den) = den := by omega
        have htie : (2 : Rat) * (num % den : Nat) = den := by exact_mod_cast htie
        rw [div_eq_iff hden.ne']
        linarith
      rw [hrest]
      split
      . next heven => exact ⟨by linarith, le_rfl, fun _ => heven, fun _ => heven⟩
      . next hodd =>
        have heven : (num / den + 1) % 2 = 0 := by omega
        exact ⟨by push_cast; linarith, by push_cast; linarith, fun _ => heven, fun _ => heven⟩

theorem exists_nearest (h : 0 ≤ q) : ∃ r, Nearest r q := by
  have hnum : ((q.num.toNat : Nat) : Rat) = (q.num : Rat) := by
    exact_mod_cast Int.toNat_of_nonneg (Rat.num_nonneg.2 h)
  have hnearest := @nearest_roundDiv q.num.toNat q.den q.den_pos
  rw [hnum, Rat.num_div_den] at hnearest
  exact ⟨_, hnearest⟩

theorem nearest_self (r : Nat) : Nearest r r :=
  ⟨by linarith, by linarith, fun heq => by linarith, fun heq => by linarith⟩

theorem Nearest.rounds (hpos : 0 < m) (h : Nearest m (v / 2 ^ e))
    (hgap : m = 2 ^ 52 → -1074 < e → m * 2 ^ e ≤ v) : Rounds m e v := by
  -- No double of the binade below may be nearer.
  obtain ⟨hlower, hupper, heven, heven'⟩ := h
  have hunit : (0 : Rat) < 2 ^ (e - 2) := by positivity
  rw [four_mul_quarter] at hlower hupper heven heven' hgap
  rw [le_div_iff₀ (by positivity)] at hlower
  rw [div_le_iff₀ (by positivity)] at hupper
  rw [div_eq_iff (by positivity)] at heven heven'
  by_cases hbinade : m = 2 ^ 52 ∧ -1074 < e
  . have hbelow := hgap hbinade.1 hbinade.2
    have hmod : m % 2 = 0 := by
      rw [hbinade.1]
      norm_num
    refine ⟨?_, ?_, fun _ => hmod, fun _ => hmod⟩
    . rw [low_of_gap hbinade.1 hbinade.2]
      linarith
    . rw [high_eq]
      linarith
  . refine ⟨?_, ?_, ?_, ?_⟩
    . rw [low_of_not_gap hpos hbinade]
      linarith
    . rw [high_eq]
      linarith
    . rw [low_of_not_gap hpos hbinade]
      intro heq
      exact heven (by linarith)
    . rw [high_eq]
      intro heq
      exact heven' (by linarith)

theorem Nearest.rounds_next (h : Nearest (2 ^ 53) (v / 2 ^ e)) (hleast : -1074 ≤ e)
    (hlt : v < 2 ^ 53 * 2 ^ e) : Rounds (2 ^ 52) (e + 1) v := by
  -- At the end of a binade the power of two that begins the next one is nearest.
  have hmod : 2 ^ 52 % 2 = 0 := by norm_num
  have hunit : (0 : Rat) < 2 ^ (e + 1 - 2) := by positivity
  have hquarter : (2 : Rat) ^ (e + 1 - 2) * 2 = 2 ^ e := by
    rw [← zpow_add_one₀ (by norm_num)]
    congr 1
    omega
  have hlower := h.lower
  rw [le_div_iff₀ (by positivity)] at hlower
  refine ⟨?_, ?_, fun _ => hmod, fun _ => hmod⟩
  . rw [low_of_gap rfl (by omega)]
    push_cast at hlower ⊢
    linarith
  . rw [high_eq]
    push_cast
    linarith

theorem exists_rounds_of_normal (hleast : 2 ^ (-1022 : Int) ≤ v) : ∃ m e, Fits m e ∧ Rounds m e v := by
  have hpos : 0 < v := lt_of_lt_of_le (by positivity) hleast
  obtain ⟨k, hlow, hhigh⟩ := exists_mem_Ico_zpow hpos (one_lt_two (α := Rat))
  obtain ⟨e, rfl⟩ : ∃ e, k = e + 52 := ⟨k - 52, by omega⟩
  have hleast : -1074 ≤ e := by
    have := (zpow_lt_zpow_iff_right₀ (one_lt_two (α := Rat))).1 (hleast.trans_lt hhigh)
    omega
  have hunit : (0 : Rat) < 2 ^ e := by positivity
  have hlow : (2 : Rat) ^ 52 * 2 ^ e ≤ v := by
    rwa [zpow_add₀ (by norm_num), mul_comm] at hlow
  have hhigh : v < 2 ^ 53 * 2 ^ e := by
    rwa [add_assoc, zpow_add₀ (by norm_num), mul_comm] at hhigh
  obtain ⟨m, hm⟩ := exists_nearest (show 0 ≤ v / 2 ^ e by positivity)
  have hmleast : 2 ^ 52 ≤ m := by
    refine (nearest_self _).mono hm ?_
    rw [le_div_iff₀ hunit]
    exact_mod_cast hlow
  have hmgreatest : m ≤ 2 ^ 53 := by
    refine hm.mono (nearest_self _) ?_
    rw [div_le_iff₀ hunit]
    exact_mod_cast hhigh.le
  by_cases hcarry : m = 2 ^ 53
  . exact ⟨2 ^ 52, e + 1, ⟨by norm_num, by norm_num, by omega, .inl le_rfl⟩,
      (hcarry ▸ hm).rounds_next hleast hhigh⟩
  . refine ⟨m, e, ⟨by omega, by omega, hleast, .inl hmleast⟩, hm.rounds (by omega) ?_⟩
    rintro rfl -
    exact_mod_cast hlow

theorem exists_rounds_of_small (hleast : 2 ^ (-1074 : Int) ≤ v) (hlt : v < 2 ^ (-1022 : Int)) :
    ∃ m e, Fits m e ∧ Rounds m e v := by
  have hunit : (0 : Rat) < 2 ^ (-1074 : Int) := by positivity
  have hnonneg : 0 ≤ v / 2 ^ (-1074 : Int) := div_nonneg (hunit.le.trans hleast) hunit.le
  obtain ⟨m, hm⟩ := exists_nearest hnonneg
  have hmleast : 1 ≤ m := by
    refine (nearest_self _).mono hm ?_
    rw [le_div_iff₀ hunit]
    simpa using hleast
  have hmgreatest : m ≤ 2 ^ 52 := by
    refine hm.mono (nearest_self _) ?_
    rw [div_le_iff₀ hunit]
    refine hlt.le.trans_eq ?_
    rw [show (-1022 : Int) = 52 + -1074 by norm_num, zpow_add₀ (by norm_num)]
    norm_cast
  refine ⟨m, -1074, ⟨hmleast, by omega, le_rfl, .inr rfl⟩, hm.rounds hmleast ?_⟩
  intro _ hgap
  exact absurd hgap (lt_irrefl _)

theorem exists_fits_rounds (hleast : 2 ^ (-1074 : Int) ≤ v) : ∃ m e, Fits m e ∧ Rounds m e v := by
  rcases le_or_gt (2 ^ (-1022 : Int)) v with hnormal | hsmall
  . exact exists_rounds_of_normal hnormal
  . exact exists_rounds_of_small hleast hsmall

theorem Rounds.binade_le (hc : Fits m e) (hr : Rounds m e v) (he : -1074 < e) :
    (2 ^ 52 - 1 / 4) * 2 ^ e ≤ v := by
  -- Below the least full mantissa the doubles lie twice as dense.
  have hunit : (0 : Rat) < 2 ^ e := by positivity
  rw [← le_div_iff₀ hunit]
  by_cases hm : m = 2 ^ 52
  . have hquarter := hr.quarter_le hm he
    rw [hm] at hquarter
    exact_mod_cast hquarter
  . have hfull : 2 ^ 52 ≤ m := hc.full.resolve_right he.ne'
    have hcast : (2 : Rat) ^ 52 + 1 ≤ m := by exact_mod_cast Nat.lt_of_le_of_ne hfull (Ne.symm hm)
    have hlower := (hr.nearest hc.pos).lower
    linarith

/-- Half a unit above the greatest double, where numbers begin to be too large. -/
def overflowBound : Rat :=
  (2 ^ 53 - 1 / 2) * 2 ^ (971 : Int)

theorem two_pow_lt_overflowBound : (2 : Rat) ^ (1023 : Int) < overflowBound := by
  unfold overflowBound
  rw [show (1023 : Int) = 52 + 971 by norm_num, zpow_add₀ (by norm_num)]
  gcongr
  norm_num

theorem exists_rounds (hleast : 2 ^ (-1074 : Int) ≤ v) (hlt : v < overflowBound) :
    ∃ m e, Canonical m e ∧ Rounds m e v := by
  obtain ⟨m, e, hfits, hr⟩ := exists_fits_rounds hleast
  refine ⟨m, e, hfits.canonical ?_, hr⟩
  by_contra hgreat
  have hbinade := hr.binade_le hfits (by omega)
  have hunits : (2 : Rat) ^ (971 : Int) * 2 ≤ 2 ^ e := by
    rw [← zpow_add_one₀ (by norm_num)]
    exact zpow_le_zpow_right₀ (by norm_num) (by omega)
  unfold overflowBound at hlt
  nlinarith

/-- The greatest mantissa is odd, so what lies halfway to the next binade is not rounded to it. -/
theorem Rounds.lt_binade (hc : Canonical m e) (hr : Rounds m e v) : v < (2 ^ 53 - 1 / 2) * 2 ^ e := by
  have hunit : (0 : Rat) < 2 ^ e := by positivity
  have hnearest := hr.nearest hc.pos
  rw [← div_lt_iff₀ hunit]
  have hlt := hc.lt
  by_cases hm : m = 2 ^ 53 - 1
  . refine lt_of_le_of_ne ?_ fun heq => ?_
    . refine hnearest.upper.trans ?_
      rw [hm]
      norm_num
    . have heven := hnearest.even_of_upper (by rw [heq, hm]; norm_num)
      omega
  . have hcast : (m : Rat) + 2 ≤ 2 ^ 53 := by exact_mod_cast (show m + 2 ≤ 2 ^ 53 by omega)
    have hupper := hnearest.upper
    linarith

theorem Rounds.mono (hc : Canonical m e) (hr : Rounds m e v) (hc' : Canonical m' e')
    (hr' : Rounds m' e' v') (hle : v ≤ v') : (m * 2 ^ e : Rat) ≤ m' * 2 ^ e' := by
  rcases lt_trichotomy e e' with hlt | rfl | hgt
  . have hfull : 2 ^ 52 ≤ m' := hc'.full.resolve_right (by have := hc.least_le; omega)
    calc
      (m * 2 ^ e : Rat) ≤ 2 ^ 53 * 2 ^ e := by
        gcongr
        exact_mod_cast hc.lt.le
      _ = 2 ^ 52 * 2 ^ (e + 1) := by
        rw [zpow_add_one₀ (by norm_num)]
        ring
      _ ≤ m' * 2 ^ e' := by
        gcongr
        . exact_mod_cast hfull
        . norm_num
        . omega
  . have hunit : (0 : Rat) < 2 ^ e := by positivity
    have hmantissa := (hr.nearest hc.pos).mono (hr'.nearest hc'.pos) (by gcongr)
    gcongr
  -- The larger exponent belongs to the larger number.
  . exfalso
    have hbelow := hr'.lt_binade hc'
    have habove := hr.binade_le hc.fits (by have := hc'.least_le; omega)
    have hunits : (2 : Rat) ^ e' * 2 ≤ 2 ^ e := by
      rw [← zpow_add_one₀ (by norm_num)]
      exact zpow_le_zpow_right₀ (by norm_num) (by omega)
    nlinarith

theorem Rounds.le_add (hc : Canonical m e) (hr : Rounds m e v) (he : -1074 < e) :
    (m * 2 ^ e : Rat) ≤ v + v / 2 ^ 53 := by
  -- A full mantissa makes the error small against the number.
  have hunit : (0 : Rat) < 2 ^ e := by positivity
  have hbinade := hr.binade_le hc.fits he
  by_cases hm : m = 2 ^ 52
  . have hquarter := hr.quarter_le hm he
    rw [le_div_iff₀ hunit] at hquarter
    linarith
  . have hfull : 2 ^ 52 ≤ m := hc.full.resolve_right he.ne'
    have hcast : (2 : Rat) ^ 52 + 1 ≤ m := by exact_mod_cast Nat.lt_of_le_of_ne hfull (Ne.symm hm)
    have hlower := (hr.nearest hc.pos).lower
    rw [le_div_iff₀ hunit] at hlower
    nlinarith

end Binary
end TurtleCurves
