import TurtleCurves.Proofs.Binary.Rounding

/-!
This module contains the reading of a whole number times a power of ten. Small ones are computed with
exact doubles, large ones by an exact multiplication or division; either way there is one rounding, to
the double in whose interval the number lies.
-/

namespace TurtleCurves
namespace Binary

open Float.Model (Format UnpackedFloat totalExponent)
open Float.Model.UnpackedFloat

variable {m m₁ m₂ n : Nat} {e e₁ e₂ p : Int}

theorem locates_div {num den : Nat} (hden : 0 < den) :
    Locates (num / den) (accuracyOfFraction (num % den) den) ((num : Rat) / den) := by
  have hcast : (0 : Rat) < den := by exact_mod_cast hden
  have hlt : num % den < den := Nat.mod_lt num hden
  have hdiv : (num : Rat) = den * (num / den : Nat) + (num % den : Nat) := by
    exact_mod_cast (Nat.div_add_mod num den).symm
  have hquotient : (num : Rat) / den = (num / den : Nat) + (num % den : Nat) / (den : Rat) := by
    rw [hdiv]
    field_simp
  rw [hquotient]
  unfold accuracyOfFraction
  split
  . next hzero =>
    rw [hzero]
    simp [Locates]
  . next hrest =>
    have hpos : (0 : Rat) < (num % den : Nat) := by exact_mod_cast Nat.pos_of_ne_zero hrest
    have hone : ((num % den : Nat) : Rat) / den < 1 := by
      rw [div_lt_one hcast]
      exact_mod_cast hlt
    have hfraction : (0 : Rat) < (num % den : Nat) / (den : Rat) := div_pos hpos hcast
    rcases hhalf : Ord.compare (2 * (num % den)) den with _ | _ | _
    . rw [Nat.compare_eq_lt] at hhalf
      have hhalf : (2 : Rat) * (num % den : Nat) < den := by exact_mod_cast hhalf
      have : ((num % den : Nat) : Rat) / den < 1 / 2 := by
        rw [div_lt_iff₀ hcast]
        linarith
      constructor <;> linarith
    . rw [Nat.compare_eq_eq] at hhalf
      have hhalf : (2 : Rat) * (num % den : Nat) = den := by exact_mod_cast hhalf
      have : ((num % den : Nat) : Rat) / den = 1 / 2 := by
        rw [div_eq_iff hcast.ne']
        linarith
      simp only [Locates]
      linarith
    . rw [Nat.compare_eq_gt] at hhalf
      have hhalf : (den : Rat) < 2 * (num % den : Nat) := by exact_mod_cast hhalf
      have : 1 / 2 < ((num % den : Nat) : Rat) / den := by
        rw [lt_div_iff₀ hcast]
        linarith
      constructor <;> linarith

theorem mul_eq (h₁ : 0 < m₁) (h₂ : 0 < m₂) (hexponent : e₁ + e₂ ≤ target (m₁ * m₂) (e₁ + e₂))
    (hc : Fits m e) (hr : Rounds m e (m₁ * 2 ^ e₁ * (m₂ * 2 ^ e₂))) (s₁ s₂ : Sign) :
    mul .binary64 (.finite s₁ m₁ e₁ h₁) (.finite s₂ m₂ e₂ h₂) = .finite (s₁ * s₂) m e hc.pos := by
  have hvalue : (m₁ : Rat) * 2 ^ e₁ * (m₂ * 2 ^ e₂) = (m₁ * m₂ : Nat) * 2 ^ (e₁ + e₂) := by
    rw [zpow_add₀ (by norm_num)]
    push_cast
    ring
  have hexact : Locates (m₁ * m₂) .exact ((m₁ * m₂ : Nat) : Rat) := rfl
  exact roundWithAccuracy_eq hc hr hexact hvalue hexponent (s₁ * s₂)

theorem le_target_div (h₁ : 0 < m₁) (h₂ : 0 < m₂) {k : Nat} {t : Int}
    (ht : t ≤ max (totalExponent m₁ e₁ - totalExponent m₂ e₂ - 53) (-1074)) (hk : e₁ - e₂ - t = k) :
    t ≤ target (m₁ <<< k / m₂) t := by
  -- The mantissa of a quotient is full unless its exponent is among the least.
  by_cases hleast : t ≤ -1074
  . exact le_target (.inr hleast)
  have hbits : m₂.log2 + 53 ≤ m₁.log2 + k := by
    unfold totalExponent at ht
    omega
  have hlow : 2 ^ m₁.log2 ≤ m₁ := Nat.log2_self_le (by omega)
  have hhigh : m₂ < 2 ^ (m₂.log2 + 1) := Nat.lt_log2_self
  have hquotient : 2 ^ 52 ≤ m₁ <<< k / m₂ := by
    rw [Nat.le_div_iff_mul_le h₂]
    rw [Nat.shiftLeft_eq]
    calc
      2 ^ 52 * m₂ ≤ 2 ^ 52 * 2 ^ (m₂.log2 + 1) := Nat.mul_le_mul_left _ hhigh.le
      _ = 2 ^ (m₂.log2 + 53) := by rw [← Nat.pow_add]; congr 1; omega
      _ ≤ 2 ^ (m₁.log2 + k) := Nat.pow_le_pow_right (by omega) hbits
      _ = 2 ^ m₁.log2 * 2 ^ k := Nat.pow_add ..
      _ ≤ m₁ * 2 ^ k := Nat.mul_le_mul_right _ hlow
  refine le_target (.inl ?_)
  rw [Nat.le_log2 (by omega)]
  exact hquotient

theorem div_eq (h₁ : 0 < m₁) (h₂ : 0 < m₂) (hc : Fits m e)
    (hr : Rounds m e (m₁ * 2 ^ e₁ / (m₂ * 2 ^ e₂))) (s₁ s₂ : Sign) :
    div .binary64 (.finite s₁ m₁ e₁ h₁) (.finite s₂ m₂ e₂ h₂) = .finite (s₁ / s₂) m e hc.pos := by
  obtain ⟨t, ht⟩ : ∃ t, t = min (e₁ - e₂)
      (Format.binary64.targetExponent (totalExponent m₁ e₁ - totalExponent m₂ e₂)) := ⟨_, rfl⟩
  obtain ⟨k, hk⟩ : ∃ k : Nat, e₁ - e₂ - t = k := ⟨(e₁ - e₂ - t).toNat, by omega⟩
  have hcore : divCore .binary64 m₁ e₁ m₂ e₂
      = (m₁ <<< k / m₂, t, accuracyOfFraction (m₁ <<< k % m₂) m₂) := by
    unfold divCore
    simp only [← ht, hk, Int.toNat_natCast]
  have hvalue : (m₁ : Rat) * 2 ^ e₁ / (m₂ * 2 ^ e₂) = ((m₁ <<< k : Nat) : Rat) / m₂ * 2 ^ t := by
    have hexponent : e₁ = k + t + e₂ := by omega
    have hpos : (0 : Rat) < m₂ := by exact_mod_cast h₂
    rw [hexponent]
    rw [zpow_add₀ (by norm_num), zpow_add₀ (by norm_num)]
    rw [Nat.shiftLeft_eq]
    push_cast
    rw [zpow_natCast]
    field_simp
  rw [targetExponent_eq] at ht
  unfold div
  simp only [hcore]
  exact roundWithAccuracy_eq hc hr (locates_div h₂) hvalue (le_target_div h₁ h₂ (by omega) hk)
    (s₁ / s₂)

def Full (x : Float) (v : Rat) : Prop :=
  ∃ (m : Nat) (e : Int) (hpos : 0 < m),
    x.toModel.unpack = .finite .positive m e hpos ∧ 2 ^ 52 ≤ m ∧ (m : Rat) * 2 ^ e = v

theorem canonical_filled (hpos : 0 < n) (hlt : n < 2 ^ 53) :
    2 ^ 52 ≤ n <<< (52 - n.log2) ∧ Canonical (n <<< (52 - n.log2)) (n.log2 - 52) := by
  have hlog : n.log2 ≤ 52 := by
    have := (Nat.log2_lt (by omega)).2 hlt
    omega
  have hlow : 2 ^ n.log2 ≤ n := Nat.log2_self_le (by omega)
  have hhigh : n < 2 ^ (n.log2 + 1) := Nat.lt_log2_self
  have hfull : 2 ^ 52 ≤ n <<< (52 - n.log2) := by
    rw [Nat.shiftLeft_eq]
    calc
      2 ^ 52 = 2 ^ n.log2 * 2 ^ (52 - n.log2) := by rw [← Nat.pow_add]; congr 1; omega
      _ ≤ n * 2 ^ (52 - n.log2) := Nat.mul_le_mul_right _ hlow
  refine ⟨hfull, by omega, ?_, by omega, by omega, .inl hfull⟩
  rw [Nat.shiftLeft_eq]
  calc
    n * 2 ^ (52 - n.log2) < 2 ^ (n.log2 + 1) * 2 ^ (52 - n.log2) :=
      Nat.mul_lt_mul_of_pos_right hhigh (by positivity)
    _ = 2 ^ 53 := by rw [← Nat.pow_add]; congr 1; omega

theorem full_ofNat (hpos : 0 < n) (hlt : n < 2 ^ 53) : Full n.toUInt64.toFloat n := by
  obtain ⟨hfull, hc⟩ := canonical_filled hpos hlt
  have hlog : n.log2 ≤ 52 := by
    have := (Nat.log2_lt (by omega)).2 hlt
    omega
  have hvalue : ((n <<< (52 - n.log2) : Nat) : Rat) * 2 ^ ((n.log2 : Int) - 52) = n := by
    have hexponent : (n.log2 : Int) - 52 = -((52 - n.log2 : Nat) : Int) := by omega
    rw [hexponent]
    rw [Nat.shiftLeft_eq]
    push_cast
    rw [zpow_neg, zpow_natCast]
    field_simp
  have hword : n.toUInt64.toNat = n := Nat.mod_eq_of_lt (by omega)
  have hround : UnpackedFloat.ofUInt64 .binary64 n.toUInt64
      = .finite .positive (n <<< (52 - n.log2)) (n.log2 - 52) hc.pos := by
    have hshift : decreaseExponent n 0 (target n 0) = (n <<< (52 - n.log2), (n.log2 : Int) - 52) := by
      have hamount : (0 - target n 0).toNat = 52 - n.log2 := by
        unfold target
        omega
      unfold decreaseExponent
      simp only [hamount, Prod.mk.injEq, true_and]
      omega
    have hexact : Locates (n <<< (52 - n.log2)) .exact ((n <<< (52 - n.log2) : Nat) : Rat) := rfl
    have hsign : Ord.compare (n : Int) 0 = .gt := by
      rw [Int.compare_eq_gt]
      omega
    have hrounded := roundWithAccuracy_eq hc.fits hc.rounds hexact rfl hc.fits.target_eq.ge .positive
    unfold UnpackedFloat.ofUInt64 UnpackedFloat.ofNat UnpackedFloat.ofInt UnpackedFloat.normalize
    rw [hword, hsign]
    change roundWithAccuracy .binary64 .positive (decreaseExponent n 0 (target n 0)).1
      (decreaseExponent n 0 (target n 0)).2 .exact = _
    rw [hshift]
    exact hrounded
  refine ⟨_, _, hc.pos, ?_, hfull, hvalue⟩
  change (Float.Model.pack (UnpackedFloat.ofUInt64 .binary64 n.toUInt64)).unpack = _
  rw [hround]
  exact unpack_pack hc .positive

def isPowerOfTen (k : Nat) : UnpackedFloat → Bool
  | .finite .positive m e _ => 2 ^ 52 ≤ m && m * 2 ^ e.toNat == 10 ^ k * 2 ^ (-e).toNat
  | _ => false

theorem isPowerOfTen_table (k : Fin 23) :
    isPowerOfTen k (Float.exactlyRepresentablePowersOfTen[k]).toModel.unpack = true := by
  revert k
  decide +kernel

theorem full_powerOfTen {x : Float} {k : Nat} (h : isPowerOfTen k x.toModel.unpack = true) :
    Full x (10 ^ k) := by
  cases hx : x.toModel.unpack with
  | finite sign m e hpos =>
    cases sign with
    | positive =>
      rw [hx] at h
      simp only [isPowerOfTen, Bool.and_eq_true, decide_eq_true_eq, beq_iff_eq] at h
      obtain ⟨hfull, hvalue⟩ := h
      refine ⟨m, e, hpos, hx, hfull, ?_⟩
      have hvalue : (m : Rat) * 2 ^ e.toNat = 10 ^ k * 2 ^ (-e).toNat := by exact_mod_cast hvalue
      have hexponent : e = (e.toNat : Int) - ((-e).toNat : Int) := by omega
      rw [hexponent]
      rw [zpow_sub₀ (by norm_num), zpow_natCast, zpow_natCast]
      rw [← mul_div_assoc]
      rw [div_eq_iff (by positivity)]
      exact hvalue
    | negative =>
      rw [hx] at h
      cases h
  | infinity sign | notANumber | zero sign =>
    rw [hx] at h
    cases h

def double (hc : Canonical m e) : Float :=
  .ofModel (.pack (.finite .positive m e hc.pos))

theorem Full.mul {x y : Float} {v w : Rat} (hx : Full x v) (hy : Full y w) (hc : Canonical m e)
    (hr : Rounds m e (v * w)) : x * y = double hc := by
  obtain ⟨m₁, e₁, h₁, hunpack₁, hfull₁, rfl⟩ := hx
  obtain ⟨m₂, e₂, h₂, hunpack₂, hfull₂, rfl⟩ := hy
  have hlog : 52 ≤ (m₁ * m₂).log2 := by
    rw [Nat.le_log2 (Nat.mul_pos h₁ h₂).ne']
    exact hfull₁.trans (Nat.le_mul_of_pos_right m₁ h₂)
  change Float.ofModel (.pack (UnpackedFloat.mul .binary64 x.toModel.unpack y.toModel.unpack)) = _
  rw [hunpack₁, hunpack₂]
  rw [mul_eq h₁ h₂ (le_target (.inl hlog)) hc.fits hr]
  rfl

theorem Full.div {x y : Float} {v w : Rat} (hx : Full x v) (hy : Full y w) (hc : Canonical m e)
    (hr : Rounds m e (v / w)) : x / y = double hc := by
  obtain ⟨m₁, e₁, h₁, hunpack₁, -, rfl⟩ := hx
  obtain ⟨m₂, e₂, h₂, hunpack₂, -, rfl⟩ := hy
  change Float.ofModel (.pack (UnpackedFloat.div .binary64 x.toModel.unpack y.toModel.unpack)) = _
  rw [hunpack₁, hunpack₂]
  rw [div_eq h₁ h₂ hc.fits hr]
  rfl

theorem Rounds.power_le (hc : Canonical m e) (hpos : 0 < n) (hr : Rounds m e (n * 10 ^ p)) :
    p ≤ 2048 := by
  by_contra hlarge
  have hgreatest := hc.le_greatest
  have hcast : (1 : Rat) ≤ n := by exact_mod_cast hpos
  have hlower : (2 : Rat) ^ p ≤ n * 10 ^ p := by
    calc
      (2 : Rat) ^ p ≤ 10 ^ p := zpow_le_zpow_left₀ (by omega) (by norm_num) (by norm_num)
      _ ≤ n * 10 ^ p := le_mul_of_one_le_left (by positivity) hcast
  have := lt_of_pow_le_of_lt hlower (hr.lt_pow hc.fits)
  omega

theorem Rounds.le_power (hc : Canonical m e) (hr : Rounds m e (n * 10 ^ p)) :
    -(2048 + (n.log2 : Int)) ≤ p := by
  by_contra hsmall
  have hleast := hc.least_le
  have hcast : (1 : Rat) ≤ m := by exact_mod_cast hc.pos
  have hlog : (n : Rat) < 2 ^ (n.log2 + 1) := by exact_mod_cast Nat.lt_log2_self
  have hlower : (2 : Rat) ^ (e - 1) ≤ n * 10 ^ p := by
    have hnear := (hr.nearest hc.pos).lower
    have hunit : (0 : Rat) < 2 ^ e := by positivity
    rw [le_div_iff₀ hunit] at hnear
    rw [zpow_sub_one₀ (by norm_num)]
    nlinarith
  have htenth : (10 : Rat) ^ p ≤ 2 ^ p := by
    obtain ⟨k, hk⟩ : ∃ k : Nat, p = -(k : Int) := ⟨(-p).toNat, by omega⟩
    rw [hk]
    rw [zpow_neg, zpow_neg, zpow_natCast, zpow_natCast]
    gcongr
    norm_num
  have hupper : (n : Rat) * 10 ^ p < 2 ^ ((n.log2 + 1 : Nat) + p) := by
    rw [zpow_add₀ (by norm_num), zpow_natCast]
    calc
      (n : Rat) * 10 ^ p < 2 ^ (n.log2 + 1) * 10 ^ p := by gcongr
      _ ≤ 2 ^ (n.log2 + 1) * 2 ^ p := by gcongr
  have := lt_of_pow_le_of_lt hlower hupper
  omega

theorem mul_powerOfTen_eq {k bits : Nat} (hbits : 52 ≤ bits) (h₁ : 0 < n <<< bits) (h₂ : 0 < 10 ^ k)
    (hc : Fits m e) (hr : Rounds m e (n * 10 ^ (k : Int))) :
    mul .binary64 (.finite .positive (n <<< bits) (-bits) h₁) (.finite .positive (10 ^ k) 0 h₂)
      =
    .finite .positive m e hc.pos := by
  have hlog : 52 ≤ (n <<< bits * 10 ^ k).log2 := by
    rw [Nat.le_log2 (Nat.mul_pos h₁ h₂).ne']
    rw [Nat.shiftLeft_eq] at h₁ ⊢
    calc
      2 ^ 52 ≤ 2 ^ bits := Nat.pow_le_pow_right (by omega) hbits
      _ ≤ n * 2 ^ bits := Nat.le_mul_of_pos_left _ (Nat.pos_of_mul_pos_right h₁)
      _ ≤ n * 2 ^ bits * 10 ^ k := Nat.le_mul_of_pos_right _ h₂
  have hvalue : ((n <<< bits : Nat) : Rat) * 2 ^ (-(bits : Int)) * ((10 ^ k : Nat) * 2 ^ (0 : Int))
      = n * 10 ^ (k : Int) := by
    rw [Nat.shiftLeft_eq]
    push_cast
    rw [zpow_neg, zpow_natCast, zpow_natCast]
    field_simp
  exact mul_eq h₁ h₂ (le_target (.inl hlog)) hc (hvalue ▸ hr) .positive .positive

theorem div_powerOfTen_eq {k : Nat} (h₁ : 0 < n) (h₂ : 0 < 10 ^ k) (hc : Canonical m e)
    (hr : Rounds m e (n * 10 ^ (-(k : Int)))) :
    div .binary64 (.finite .positive n 0 h₁) (.finite .positive (10 ^ k) 0 h₂)
      =
    .finite .positive m e hc.pos := by
  have hvalue : (n : Rat) * 2 ^ (0 : Int) / ((10 ^ k : Nat) * 2 ^ (0 : Int)) = n * 10 ^ (-(k : Int)) := by
    push_cast
    rw [zpow_neg, zpow_natCast, mul_one, mul_one]
    rw [div_eq_mul_inv]
  exact div_eq h₁ h₂ hc.fits (hvalue ▸ hr) .positive .positive

theorem ofScientific_model_eq (hc : Canonical m e) (hpos : 0 < n) (hr : Rounds m e (n * 10 ^ p)) :
    UnpackedFloat.ofScientific .binary64 n p = .finite .positive m e hc.pos := by
  -- The powers of ten that count as too large or too small at once have no double near them.
  have hle := hr.power_le hc hpos
  have hge := hr.le_power hc
  have hrange : (2 : Int) ^ Format.binary64.exponentBits = 2048 := by norm_num
  unfold UnpackedFloat.ofScientific
  rw [dif_neg (by omega), if_neg (by omega), if_neg (by omega)]
  split
  . next hpower =>
    obtain ⟨k, rfl⟩ := Int.eq_ofNat_of_zero_le hpower
    exact mul_powerOfTen_eq (Nat.le_succ 52) _ _ hc.fits hr
  . next hpower =>
    obtain ⟨k, rfl⟩ : ∃ k : Nat, p = -(k : Int) := ⟨(-p).toNat, by omega⟩
    simp only [neg_neg, Int.toNat_natCast]
    exact div_powerOfTen_eq hpos _ hc hr

theorem ofScientific_eq (hc : Canonical m e) (hpos : 0 < n) (hr : Rounds m e (n * 10 ^ p)) :
    Float.ofScientific n (p < 0) p.natAbs = double hc := by
  unfold Float.ofScientific
  split
  -- Up to a power of ten that is a double itself there is one rounding, that of the last operation.
  . next hfast =>
    have hn := full_ofNat hpos hfast.1
    have hpower := full_powerOfTen (isPowerOfTen_table ⟨p.natAbs, by omega⟩)
    simp only [decide_eq_true_eq]
    split
    . next hnegative =>
      have hvalue : (n : Rat) / 10 ^ p.natAbs = n * 10 ^ p := by
        obtain ⟨k, rfl⟩ : ∃ k : Nat, p = -(k : Int) := ⟨(-p).toNat, by omega⟩
        rw [Int.natAbs_neg, Int.natAbs_natCast]
        rw [zpow_neg, zpow_natCast]
        rw [div_eq_mul_inv]
      exact hn.div hpower hc (hvalue ▸ hr)
    . next hnonneg =>
      have hvalue : (n : Rat) * 10 ^ p.natAbs = n * 10 ^ p := by
        obtain ⟨k, rfl⟩ := Int.eq_ofNat_of_zero_le (Int.not_lt.1 hnonneg)
        rw [Int.natAbs_natCast]
        rw [zpow_natCast]
      exact hn.mul hpower hc (hvalue ▸ hr)
  . have hsigned : (if decide (p < 0) = true then Int.negOfNat p.natAbs else Int.ofNat p.natAbs) = p := by
      simp only [decide_eq_true_eq, Int.ofNat_eq_natCast, Int.negOfNat_eq]
      split <;> omega
    simp only [hsigned]
    change Float.ofModel (.pack (UnpackedFloat.ofScientific .binary64 n p)) = _
    rw [ofScientific_model_eq hc hpos hr]
    rfl

end Binary
end TurtleCurves
