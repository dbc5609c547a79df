import TurtleCurves.Proofs.Binary.Overflow

/-!
This module contains which sums and products of finite doubles are finite again: those that are not too large.
A tiny product is no exception, it is rounded to zero or to the least double. The numbers below a double that are
rounded up to it are at most half a unit away.
-/

namespace TurtleCurves
namespace Binary

open Float.Model (UnpackedFloat)
open Float.Model.UnpackedFloat

variable {x y : Float} {m m' M n : Nat} {e e' E : Int} {v w : Rat}

theorem Canonical.value_le (h : Canonical m e) : (m * 2 ^ e : Rat) ≤ (2 ^ 53 - 1) * 2 ^ (971 : Int) := by
  have hlt : (m : Rat) + 1 ≤ 2 ^ 53 := by exact_mod_cast h.lt
  have hmantissa : (m : Rat) ≤ 2 ^ 53 - 1 := by linarith
  gcongr
  . norm_num
  . exact h.le_greatest

theorem Denotes.abs_le (h : Denotes x v) : |v| ≤ (2 ^ 53 - 1) * 2 ^ (971 : Int) := by
  have hunpacked := h.unpacked
  generalize x.toModel.unpack = u at hunpacked
  cases hunpacked with
  | zero s =>
    rw [abs_zero]
    positivity
  | finite s hc =>
    rw [abs_mul, abs_unit, one_mul, abs_of_pos hc.value_pos]
    exact hc.value_le

theorem Denotes.add_lt_overflowBound (h : Denotes x v) (hw : |w| < 2 ^ 64) : |v + w| < overflowBound := by
  have hle := h.abs_le
  have hadd := abs_add_le v w
  have hunit : (2 : Rat) ^ 65 ≤ 2 ^ (971 : Int) := by
    rw [← zpow_natCast]
    exact zpow_le_zpow_right₀ (by norm_num) (by norm_num)
  unfold overflowBound
  generalize (2 : Rat) ^ (971 : Int) = greatest at *
  linarith

theorem Denotes.lt_overflowBound (h : Denotes x v) : |v| < overflowBound := by
  have hlt := h.add_lt_overflowBound (w := 0) (by norm_num)
  rwa [add_zero] at hlt

theorem Denotes.exists_add (hx : Denotes x v) (hy : Denotes y w) (hlt : |v + w| < overflowBound) :
    ∃ r, RoundsTo (v + w) r ∧ Denotes (x + y) r := by
  obtain ⟨r, hr⟩ := (hx.roundsTo.onGrid.add hy.roundsTo.onGrid).exists_roundsTo hlt
  exact ⟨r, hr, hx.add hy hr⟩

theorem canonical_least : Canonical 1 (-1074) :=
  ⟨one_pos, by norm_num, le_rfl, by norm_num, .inr rfl⟩

theorem roundWithAccuracy_of_tiny (hM : 0 < M) (hlt : (M * 2 ^ E : Rat) < 2 ^ (-1074 : Int)) (s : Sign) :
    roundWithAccuracy .binary64 s M E .exact = .zero s ∨
      roundWithAccuracy .binary64 s M E .exact = .finite s 1 (-1074) one_pos := by
  have hexact : Locates M .exact (M : Rat) := rfl
  have hlog := lt_of_pow_le_of_lt (hexact.pow_le (E := E) hM) hlt
  have htarget : target M E = -1074 := by
    unfold target
    omega
  obtain ⟨k, hk⟩ : ∃ k : Nat, (-1074 - E).toNat = k ∧ E = -1074 - k :=
    ⟨(-1074 - E).toNat, rfl, by omega⟩
  have hnearest := (hexact.reads.shiftRight k).nearest
  obtain ⟨r, hr⟩ : ∃ r, (ExtendedMantissa.ofMantissaAndAccuracy M .exact >>> k).roundedMantissa = r := ⟨_, rfl⟩
  rw [hr] at hnearest
  -- Nothing lies between zero and the least double, which has one unit.
  have hone : r ≤ 1 := by
    refine hnearest.mono (nearest_self 1) ?_
    rw [hk.2, zpow_sub₀ (by norm_num), zpow_natCast] at hlt
    rw [div_le_iff₀ (by positivity), Nat.cast_one, one_mul]
    have hunit : (0 : Rat) < 2 ^ (-1074 : Int) := by positivity
    rw [← mul_div_assoc, div_lt_iff₀ (by positivity), mul_comm] at hlt
    exact (lt_of_mul_lt_mul_left hlt hunit.le).le
  rw [← hk.1] at hr
  rcases Nat.le_one_iff_eq_zero_or_eq_one.1 hone with rfl | rfl
  . left
    rw [roundWithAccuracy_eq_dite htarget (by omega) hr (k := 0) rfl]
    rfl
  . right
    exact roundWithAccuracy_of_rounded one_pos htarget (by omega) hr (k := 0) rfl rfl rfl

theorem Unpacked.exists_denotes_mul {a b : UnpackedFloat} (ha : Unpacked a v) (hb : Unpacked b w)
    (hlt : |v * w| < overflowBound) :
    ∃ r, Denotes (.ofModel (.pack (UnpackedFloat.mul .binary64 a b))) r := by
  by_cases hleast : 2 ^ (-1074 : Int) ≤ |v * w|
  . obtain ⟨r, hr⟩ := exists_roundsTo hleast hlt
    exact ⟨r, ha.denotes_mul hb hr⟩
  rw [not_le] at hleast
  cases ha with
  | zero s => exact ⟨0, (Unpacked.zero s).denotes_mul hb (by simpa using RoundsTo.zero)⟩
  | @finite m e s hc =>
    cases hb with
    | zero t => exact ⟨0, (Unpacked.finite s hc).denotes_mul (.zero t) (by simpa using RoundsTo.zero)⟩
    | @finite m' e' t hc' =>
      have hvalue : |unit s * (m * 2 ^ e) * (unit t * (m' * 2 ^ e'))| = (m * m' : Nat) * 2 ^ (e + e') := by
        rw [abs_mul, abs_mul (unit s), abs_mul (unit t), abs_unit, abs_unit]
        rw [abs_of_pos hc.value_pos, abs_of_pos hc'.value_pos]
        rw [zpow_add₀ (by norm_num)]
        push_cast
        ring
      rw [hvalue] at hleast
      have hmul : UnpackedFloat.mul .binary64 (.finite s m e hc.pos) (.finite t m' e' hc'.pos)
          = roundWithAccuracy .binary64 (s * t) (m * m') (e + e') .exact := rfl
      rw [hmul]
      rcases roundWithAccuracy_of_tiny (Nat.mul_pos hc.pos hc'.pos) hleast (s * t) with hzero | hfinite
      . rw [hzero]
        exact ⟨0, denotes_pack_zero _⟩
      . rw [hfinite]
        exact ⟨_, denotes_pack canonical_least (s * t)⟩

theorem Denotes.exists_mul (hx : Denotes x v) (hy : Denotes y w) (hlt : |v * w| < overflowBound) :
    ∃ r, Denotes (x * y) r :=
  hx.unpacked.exists_denotes_mul hy.unpacked hlt

theorem Canonical.unique (h : Canonical m e) (h' : Canonical m' e') (heq : (m * 2 ^ e : Rat) = m' * 2 ^ e') :
    m = m' ∧ e = e' := by
  rcases lt_trichotomy e e' with hlt | rfl | hgt
  . exact absurd heq (h.lt_of_exponent_lt h' hlt).ne
  . have hunit : (2 : Rat) ^ e ≠ 0 := by positivity
    exact ⟨by exact_mod_cast mul_right_cancel₀ hunit heq, rfl⟩
  . exact absurd heq (h'.lt_of_exponent_lt h hgt).ne'

theorem roundsTo_iff_of_lt (hc : Canonical m e) (hm : m ≠ 2 ^ 52) (heven : m % 2 = 0) (hlt : v < m * 2 ^ e) :
    RoundsTo v (m * 2 ^ e) ↔ (m - 1 / 2) * 2 ^ e ≤ v := by
  have hunit : (0 : Rat) < 2 ^ e := by positivity
  constructor
  . intro h
    have hpos : 0 < v := by
      by_contra hnonpos
      exact absurd (h.nonpos (not_lt.1 hnonpos)) (not_le.2 hc.value_pos)
    obtain ⟨m', e', hc', hr, heq⟩ := h.eq_positive hpos
    obtain ⟨rfl, rfl⟩ := hc.unique hc' heq
    exact (le_div_iff₀ hunit).1 (hr.nearest hc.pos).lower
  . intro hle
    have hbelow : v / 2 ^ e < m := (div_lt_iff₀ hunit).2 hlt
    -- The mantissa is even, so it takes in what lies halfway.
    have hnearest : Nearest m (v / 2 ^ e) :=
      ⟨(le_div_iff₀ hunit).2 hle, by linarith, fun _ => heven, fun _ => heven⟩
    have hround := RoundsTo.finite .positive hc (hnearest.rounds hc.pos fun heq => absurd heq hm)
    rwa [unit_positive, one_mul, one_mul] at hround

end Binary
end TurtleCurves
