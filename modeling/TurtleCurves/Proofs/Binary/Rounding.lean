import Mathlib.Algebra.Order.Field.Power
import Mathlib.Algebra.Order.Field.Rat
import Mathlib.Data.Rat.Cast.Order
import Mathlib.Tactic.FieldSimp
import Mathlib.Tactic.Linarith
import Mathlib.Tactic.Positivity
import Mathlib.Tactic.Ring
import TurtleCurves.Decimal.Shortest
import TurtleCurves.Proofs.Binary.Packing

/-!
This module contains the rounding of numbers to doubles. A number that lies in the interval of a double
is rounded to it, also below a power of two, where the mantissa gets one bit too many at first.
-/

namespace TurtleCurves
namespace Binary

open Float.Model (Format UnpackedFloat totalExponent)
open Float.Model.UnpackedFloat

variable {m M : Nat} {e E : Int} {q v : Rat} {accuracy : Accuracy} {em : ExtendedMantissa}

structure Nearest (r : Nat) (q : Rat) : Prop where
  lower : r - 1 / 2 ≤ q
  upper : q ≤ r + 1 / 2
  even_of_lower : q = r - 1 / 2 → r % 2 = 0
  even_of_upper : q = r + 1 / 2 → r % 2 = 0

theorem Nearest.mono {r r' : Nat} {q' : Rat} (h : Nearest r q) (h' : Nearest r' q') (hle : q ≤ q') :
    r ≤ r' := by
  by_contra hlt
  have hsucc : (r' : Rat) + 1 ≤ r := by exact_mod_cast Nat.lt_of_not_le hlt
  have hlower := h.lower
  have hupper := h'.upper
  -- Both bounds are met, so the two numbers are neighbours, and both would be even.
  have heven := h.even_of_lower (by linarith)
  have heven' := h'.even_of_upper (by linarith)
  have hnext : (r : Rat) ≤ (r' + 1 : Nat) := by
    push_cast
    linarith
  have hnext : r ≤ r' + 1 := by exact_mod_cast hnext
  omega

theorem Nearest.unique {r r' : Nat} (h : Nearest r q) (h' : Nearest r' q) : r = r' :=
  Nat.le_antisymm (h.mono h' le_rfl) (h'.mono h le_rfl)

/-- Where a number lies above a whole number below it. -/
def Locates (m : Nat) : Accuracy → Rat → Prop
  | .exact, q => q = m
  | .inexact .lt, q => m < q ∧ q < m + 1 / 2
  | .inexact .eq, q => q = m + 1 / 2
  | .inexact .gt, q => m + 1 / 2 < q ∧ q < m + 1

theorem Locates.le (h : Locates m accuracy q) : (m : Rat) ≤ q := by
  cases accuracy with
  | exact => exact h.ge
  | inexact ordering =>
    cases ordering <;> simp only [Locates] at h <;> linarith

theorem Locates.lt (h : Locates m accuracy q) : q < m + 1 := by
  cases accuracy with
  | exact =>
    simp only [Locates] at h
    linarith
  | inexact ordering =>
    cases ordering <;> simp only [Locates] at h <;> linarith

def Reads (em : ExtendedMantissa) (q : Rat) : Prop :=
  Locates em.mantissa em.accuracy q

theorem Locates.reads (h : Locates m accuracy q) :
    Reads (.ofMantissaAndAccuracy m accuracy) q := by
  cases accuracy with
  | exact => exact h
  | inexact ordering => cases ordering <;> exact h

theorem Reads.nearest (h : Reads em q) : Nearest em.roundedMantissa q := by
  obtain ⟨m, roundBit, stickyBit⟩ := em
  cases roundBit <;> cases stickyBit <;>
    simp only [Reads, ExtendedMantissa.accuracy, Locates, ExtendedMantissa.roundedMantissa,
      Accuracy.roundToNearestEven] at h ⊢
  . constructor <;> grind
  . constructor <;> grind
  . rcases Nat.mod_two_eq_zero_or_one m with hmod | hmod <;> rw [hmod] <;> constructor <;> grind
  . constructor <;> grind

theorem Reads.shiftRightOne (h : Reads em q) : Reads em.shiftRightOne (q / 2) := by
  obtain ⟨m, roundBit, stickyBit⟩ := em
  have hm : (m : Rat) = 2 * (m / 2 : Nat) + (m % 2 : Nat) := by
    exact_mod_cast (Nat.div_add_mod m 2).symm
  rcases Nat.mod_two_eq_zero_or_one m with hmod | hmod <;> rw [hmod] at hm <;> push_cast at hm <;>
    cases roundBit <;> cases stickyBit <;>
    simp [Reads, ExtendedMantissa.accuracy, Locates, ExtendedMantissa.shiftRightOne, hmod] at h ⊢ <;>
    grind

theorem Reads.shiftRight (h : Reads em q) (k : Nat) : Reads (em >>> k) (q / 2 ^ k) := by
  change Reads (Nat.repeat ExtendedMantissa.shiftRightOne k em) _
  induction k with
  | zero => simpa [Nat.repeat] using h
  | succ k ih =>
    rw [pow_succ]
    rw [← div_div]
    exact ih.shiftRightOne

/-- The exponent to which a double with this mantissa and exponent is brought. -/
def target (m : Nat) (e : Int) : Int :=
  max (m.log2 + 1 + e - 53) (-1074)

theorem targetExponent_eq (x : Int) : Format.binary64.targetExponent x = max (x - 53) (-1074) := rfl

theorem le_target (h : 52 ≤ m.log2 ∨ e ≤ -1074) : e ≤ target m e := by
  unfold target
  omega

/-- What rounding leaves of a number, if need be with an exponent that is too large for a double. -/
structure Fits (m : Nat) (e : Int) : Prop where
  pos : 0 < m
  lt : m < 2 ^ 53
  least_le : -1074 ≤ e
  full : 2 ^ 52 ≤ m ∨ e = -1074

theorem Canonical.fits (h : Canonical m e) : Fits m e :=
  ⟨h.pos, h.lt, h.least_le, h.full⟩

theorem Fits.canonical (h : Fits m e) (he : e ≤ 971) : Canonical m e :=
  ⟨h.pos, h.lt, h.least_le, he, h.full⟩

theorem Fits.target_eq (h : Fits m e) : target m e = e := by
  have hlt := h.lt
  have hleast := h.least_le
  have hpos := h.pos
  unfold target
  by_cases hfull : 2 ^ 52 ≤ m
  . rw [log2_eq hfull hlt]
    omega
  . obtain rfl := h.full.resolve_left hfull
    have hlog := log2_lt hpos (by omega)
    omega

/--
A number lies in the interval of a double: it is at most half a unit of the mantissa away, a quarter
below a power of two.
-/
structure Rounds (m : Nat) (e : Int) (v : Rat) : Prop where
  lower : ((Decimal.roundingInterval m e).1 : Rat) * 2 ^ (e - 2) ≤ v
  upper : v ≤ ((Decimal.roundingInterval m e).2 : Rat) * 2 ^ (e - 2)
  even_of_lower : v = ((Decimal.roundingInterval m e).1 : Rat) * 2 ^ (e - 2) → m % 2 = 0
  even_of_upper : v = ((Decimal.roundingInterval m e).2 : Rat) * 2 ^ (e - 2) → m % 2 = 0

theorem low_of_gap (hm : m = 2 ^ 52) (he : -1074 < e) :
    ((Decimal.roundingInterval m e).1 : Rat) = 4 * m - 1 := by
  subst hm
  simp [Decimal.roundingInterval, Decimal.leastMantissa, Decimal.leastExponent, he]
  norm_num

theorem low_of_not_gap (hpos : 0 < m) (h : ¬(m = 2 ^ 52 ∧ -1074 < e)) :
    ((Decimal.roundingInterval m e).1 : Rat) = 4 * m - 2 := by
  have hlow : (Decimal.roundingInterval m e).1 = 4 * m - 2 := by
    have hgap : ¬((m = Decimal.leastMantissa && Decimal.leastExponent < e) = true) := by
      rw [Bool.and_eq_true, decide_eq_true_iff, decide_eq_true_iff]
      exact h
    exact if_neg hgap
  rw [hlow]
  rw [Nat.cast_sub (by omega)]
  push_cast
  ring

theorem high_eq : ((Decimal.roundingInterval m e).2 : Rat) = 4 * m + 2 := by
  simp [Decimal.roundingInterval]

theorem four_mul_quarter : (2 : Rat) ^ e = 4 * 2 ^ (e - 2) := by
  rw [zpow_sub₀ (by norm_num)]
  field_simp
  norm_num

theorem Rounds.quarter_le (h : Rounds m e v) (hm : m = 2 ^ 52) (he : -1074 < e) :
    (m : Rat) - 1 / 4 ≤ v / 2 ^ e := by
  have hlower := h.lower
  have hunit : (0 : Rat) < 2 ^ (e - 2) := by positivity
  rw [low_of_gap hm he] at hlower
  rw [four_mul_quarter]
  rw [le_div_iff₀ (by positivity)]
  linarith

theorem Rounds.nearest (hpos : 0 < m) (h : Rounds m e v) : Nearest m (v / 2 ^ e) := by
  obtain ⟨hlower, hupper, heven, heven'⟩ := h
  have hunit : (0 : Rat) < 2 ^ (e - 2) := by positivity
  rw [four_mul_quarter]
  rw [high_eq] at hupper heven'
  by_cases hgap : m = 2 ^ 52 ∧ -1074 < e
  . rw [low_of_gap hgap.1 hgap.2] at hlower
    have hmod : m % 2 = 0 := by
      rw [hgap.1]
      norm_num
    refine ⟨?_, ?_, fun _ => hmod, fun _ => hmod⟩
    . rw [le_div_iff₀ (by positivity)]
      linarith
    . rw [div_le_iff₀ (by positivity)]
      linarith
  . rw [low_of_not_gap hpos hgap] at hlower heven
    refine ⟨?_, ?_, ?_, ?_⟩
    . rw [le_div_iff₀ (by positivity)]
      linarith
    . rw [div_le_iff₀ (by positivity)]
      linarith
    . rw [div_eq_iff (by positivity)]
      intro heq
      exact heven (by linarith)
    . rw [div_eq_iff (by positivity)]
      intro heq
      exact heven' (by linarith)

theorem Rounds.pos (hpos : 0 < m) (h : Rounds m e v) : 0 < v := by
  have hcast : (1 : Rat) ≤ m := by exact_mod_cast hpos
  have hunit : (0 : Rat) < 2 ^ e := by positivity
  have hnear := (h.nearest hpos).lower
  rw [le_div_iff₀ hunit] at hnear
  nlinarith

theorem Canonical.rounds (h : Canonical m e) : Rounds m e (m * 2 ^ e) := by
  have hpos := h.pos
  have hunit : (0 : Rat) < 2 ^ (e - 2) := by positivity
  have hlow : ((Decimal.roundingInterval m e).1 : Rat) ≤ 4 * m - 1 := by
    by_cases hgap : m = 2 ^ 52 ∧ -1074 < e
    . exact (low_of_gap hgap.1 hgap.2).le
    . rw [low_of_not_gap hpos hgap]
      linarith
  rw [four_mul_quarter]
  constructor
  . nlinarith
  . rw [high_eq]
    linarith
  . intro heq
    nlinarith
  . rw [high_eq]
    intro heq
    linarith

theorem lt_of_pow_le_of_lt {a b : Int} (ha : (2 : Rat) ^ a ≤ v) (hb : v < 2 ^ b) : a < b :=
  (zpow_lt_zpow_iff_right₀ one_lt_two).1 (ha.trans_lt hb)

theorem Locates.pow_le (hpos : 0 < M) (h : Locates M accuracy q) :
    (2 : Rat) ^ (M.log2 + E) ≤ q * 2 ^ E := by
  have hlog : 2 ^ M.log2 ≤ M := Nat.log2_self_le (by omega)
  have hlog : (2 : Rat) ^ M.log2 ≤ M := by exact_mod_cast hlog
  have hle := h.le
  have hunit : (0 : Rat) < 2 ^ E := by positivity
  rw [zpow_add₀ (by norm_num)]
  rw [zpow_natCast]
  gcongr
  linarith

theorem Locates.lt_pow (h : Locates M accuracy q) : q * 2 ^ E < (2 : Rat) ^ (M.log2 + 1 + E) := by
  have hlog : M + 1 ≤ 2 ^ (M.log2 + 1) := Nat.lt_log2_self
  have hlog : (M : Rat) + 1 ≤ 2 ^ (M.log2 + 1) := by exact_mod_cast hlog
  have hlt := h.lt
  have hunit : (0 : Rat) < 2 ^ E := by positivity
  have hcast : ((M.log2 : Int) + 1 + E) = ((M.log2 + 1 : Nat) : Int) + E := by push_cast; ring
  rw [hcast]
  rw [zpow_add₀ (by norm_num)]
  rw [zpow_natCast]
  gcongr
  linarith

theorem Rounds.pow_le (hc : Fits m e) (hr : Rounds m e v) (he : -1074 < e) :
    (2 : Rat) ^ (51 + e) ≤ v ∧ (m ≠ 2 ^ 52 → (2 : Rat) ^ (52 + e) ≤ v) := by
  have hfull : 2 ^ 52 ≤ m := hc.full.resolve_right (by omega)
  have hcast : (2 : Rat) ^ 52 ≤ m := by exact_mod_cast hfull
  have hnear := (hr.nearest hc.pos).lower
  have hunit : (0 : Rat) < 2 ^ e := by positivity
  rw [le_div_iff₀ hunit] at hnear
  refine ⟨?_, ?_⟩
  . rw [zpow_add₀ (by norm_num)]
    refine le_trans ?_ hnear
    gcongr
    norm_num
    linarith
  . intro hm
    have hcast : (2 : Rat) ^ 52 + 1 ≤ m := by exact_mod_cast Nat.lt_of_le_of_ne hfull (Ne.symm hm)
    rw [zpow_add₀ (by norm_num)]
    refine le_trans ?_ hnear
    gcongr
    norm_num
    linarith

theorem Rounds.lt_pow (hc : Fits m e) (hr : Rounds m e v) : v < (2 : Rat) ^ (53 + e) := by
  have hcast : (m : Rat) + 1 ≤ 2 ^ 53 := by exact_mod_cast hc.lt
  have hnear := (hr.nearest hc.pos).upper
  have hunit : (0 : Rat) < 2 ^ e := by positivity
  rw [div_le_iff₀ hunit] at hnear
  rw [zpow_add₀ (by norm_num)]
  refine lt_of_le_of_lt hnear ?_
  gcongr
  norm_num
  linarith

theorem target_eq_or (hc : Fits m e) (hr : Rounds m e v) (hl : Locates M accuracy q)
    (hv : v = q * 2 ^ E) (hE : E ≤ target M E) :
    target M E = e ∨
      (m = 2 ^ 52 ∧ -1074 < e ∧ target M E = e - 1 ∧ v < 2 ^ (52 + e)) := by
  have hleast := hc.least_le
  have htarget : target M E = max (M.log2 + 1 + E - 53) (-1074) := rfl
  have hupper : v < (2 : Rat) ^ (target M E + 53) := by
    rw [hv]
    refine lt_of_lt_of_le hl.lt_pow ?_
    exact zpow_le_zpow_right₀ (by norm_num) (by omega)
  rcases lt_trichotomy (target M E) e with hlt | heq | hgt
  . right
    obtain ⟨hlow, hlow'⟩ := hr.pow_le hc (by omega)
    have hm : m = 2 ^ 52 := by
      by_contra hm
      have := lt_of_pow_le_of_lt (hlow' hm) hupper
      omega
    have htarget : target M E = e - 1 := by
      have := lt_of_pow_le_of_lt hlow hupper
      omega
    refine ⟨hm, by omega, htarget, ?_⟩
    rw [htarget] at hupper
    rwa [show e - 1 + 53 = 52 + e by ring] at hupper
  . exact .inl heq
  . have hpos : 0 < M := by
      by_contra hzero
      obtain rfl : M = 0 := by omega
      rw [Nat.log2_zero] at htarget
      omega
    have hlower := hl.pow_le (E := E) hpos
    rw [← hv] at hlower
    have := lt_of_pow_le_of_lt hlower (hr.lt_pow hc)
    omega

theorem mantissa_shiftRight (em : ExtendedMantissa) (k : Nat) :
    (em >>> k).mantissa = em.mantissa / 2 ^ k := by
  change (Nat.repeat ExtendedMantissa.shiftRightOne k em).mantissa = _
  induction k with
  | zero => simp [Nat.repeat]
  | succ k ih =>
    rw [Nat.pow_succ]
    rw [← Nat.div_div_eq_div_mul]
    rw [← ih]
    rfl

theorem mantissa_ofMantissaAndAccuracy :
    (ExtendedMantissa.ofMantissaAndAccuracy M accuracy).mantissa = M := by
  cases accuracy with
  | exact => rfl
  | inexact ordering => cases ordering <;> rfl

/-- The exponent is brought to the target, the mantissa is rounded, and its overflow is shifted out. -/
theorem roundWithAccuracy_eq_dite {r k : Nat} {t : Int} {sign : Sign} (ht : target M E = t) (hE : E ≤ t)
    (hr : (ExtendedMantissa.ofMantissaAndAccuracy M accuracy >>> (t - E).toNat).roundedMantissa = r)
    (hk : target r t = t + k) :
    roundWithAccuracy .binary64 sign M E accuracy
      =
    if h : r / 2 ^ k = 0 then .zero sign else .finite sign (r / 2 ^ k) (t + k) (Nat.pos_of_ne_zero h) := by
  have hfirst : shiftToTargetExponent .binary64 M E accuracy
      = (ExtendedMantissa.ofMantissaAndAccuracy M accuracy >>> (t - E).toNat,
          E + ((t - E).toNat : Int)) := by
    subst ht
    rfl
  have hsecond : shiftToTargetExponent .binary64 r t .exact
      = (ExtendedMantissa.ofMantissaAndAccuracy r .exact >>> k, t + k) := by
    have hamount : (target r t - t).toNat = k := by omega
    rw [← hamount]
    rfl
  have hexponent : E + ((t - E).toNat : Int) = t := by omega
  unfold roundWithAccuracy
  rw [hfirst]
  simp only [hr, hexponent, hsecond, mantissa_shiftRight, mantissa_ofMantissaAndAccuracy]

theorem roundWithAccuracy_of_rounded {r k : Nat} {t : Int} {sign : Sign} (hpos : 0 < m)
    (ht : target M E = t) (hE : E ≤ t)
    (hr : (ExtendedMantissa.ofMantissaAndAccuracy M accuracy >>> (t - E).toNat).roundedMantissa = r)
    (hk : target r t = t + k) (hm : r / 2 ^ k = m) (he : t + k = e) :
    roundWithAccuracy .binary64 sign M E accuracy = .finite sign m e hpos := by
  subst hm he
  rw [roundWithAccuracy_eq_dite ht hE hr hk]
  rw [dif_neg (by omega)]

theorem roundWithAccuracy_eq (hc : Fits m e) (hr : Rounds m e v) (hl : Locates M accuracy q)
    (hv : v = q * 2 ^ E) (hE : E ≤ target M E) (sign : Sign) :
    roundWithAccuracy .binary64 sign M E accuracy = .finite sign m e hc.pos := by
  have hnear := (hl.reads.shiftRight (target M E - E).toNat).nearest
  have hshift : q / 2 ^ (target M E - E).toNat = v / 2 ^ target M E := by
    rw [hv]
    rw [mul_div_assoc]
    rw [← zpow_sub₀ (by norm_num)]
    rw [← zpow_natCast]
    rw [div_eq_mul_inv]
    rw [← zpow_neg]
    congr 2
    omega
  rw [hshift] at hnear
  rcases target_eq_or hc hr hl hv hE with htarget | ⟨rfl, he, htarget, hbelow⟩
  . rw [htarget] at hE hnear
    have hrounded := hnear.unique (hr.nearest hc.pos)
    exact roundWithAccuracy_of_rounded hc.pos htarget hE hrounded (by simpa using hc.target_eq)
      (Nat.div_one m) (Int.add_zero e)
  . rw [htarget] at hE hnear
    -- Half a unit below the power of two counts as a whole one at the smaller exponent.
    have hdouble : v / 2 ^ (e - 1) = 2 * (v / 2 ^ e) := by
      rw [zpow_sub_one₀ (by norm_num)]
      field_simp
    have hquarter := hr.quarter_le rfl he
    have hbelow : v / 2 ^ e < 2 ^ 52 := by
      rw [div_lt_iff₀ (by positivity)]
      rwa [zpow_add₀ (by norm_num)] at hbelow
    have hpower : Nearest (2 ^ 53) (v / 2 ^ (e - 1)) := by
      rw [hdouble]
      refine ⟨?_, ?_, fun _ => by norm_num, fun _ => by norm_num⟩
      . push_cast at hquarter ⊢
        linarith
      . push_cast
        linarith
    have hrounded := hnear.unique hpower
    have htarget' : target (2 ^ 53) (e - 1) = e - 1 + (1 : Nat) := by
      unfold target
      rw [Nat.log2_two_pow]
      omega
    exact roundWithAccuracy_of_rounded hc.pos htarget hE hrounded htarget' (by norm_num)
      (by omega)

end Binary
end TurtleCurves
