import TurtleCurves.Proofs.Binary.Arithmetic

/-!
This module contains the doubling of doubles. It is exact, unless the double of a number is too large and
becomes infinite.
-/

namespace TurtleCurves
namespace Binary

open Float.Model (Format UnpackedFloat)
open Float.Model.UnpackedFloat

variable {x : Float} {m : Nat} {e : Int} {s : Sign} {v : Rat}

theorem unpack_two : (2 : Float).toModel.unpack = .finite .positive (2 ^ 52) (-51) (by norm_num) := rfl

theorem denotes_two : Denotes 2 2 := by
  have hdenotes := denotes_of_unpack_finite unpack_two
  rw [unit_positive] at hdenotes
  norm_num at hdenotes
  exact hdenotes

theorem Canonical.exists_double (h : Canonical m e) (he : e < 971) :
    ∃ m' e', Canonical m' e' ∧ (m' * 2 ^ e' : Rat) = 2 * (m * 2 ^ e) := by
  have hpos := h.pos
  have hlt := h.lt
  have hleast := h.least_le
  by_cases hfull : 2 ^ 52 ≤ m
  . refine ⟨m, e + 1, ⟨hpos, hlt, by omega, by omega, .inl hfull⟩, ?_⟩
    rw [zpow_add_one₀ (by norm_num)]
    ring
  . obtain rfl := h.full.resolve_left hfull
    refine ⟨2 * m, -1074, ⟨by omega, by omega, le_rfl, by omega, .inr rfl⟩, ?_⟩
    rw [Nat.cast_mul, Nat.cast_ofNat, mul_assoc]

theorem mul_two_of_full (hm : 0 < m) (hfull : 2 ^ 52 ≤ m) (hlt : m < 2 ^ 53) (he : -1074 ≤ e) :
    UnpackedFloat.mul .binary64 (.finite .positive (2 ^ 52) (-51) (by norm_num)) (.finite s m e hm)
      =
    .finite s m (e + 1) hm := by
  -- A full mantissa is doubled by its exponent, even if that gets too large.
  have hlog := log2_eq hfull hlt
  have hproduct : (2 ^ 52 * m).log2 = 104 := by
    rw [mul_comm, ← Nat.shiftLeft_eq]
    rw [log2_shiftLeft hm, hlog]
  have htarget : target (2 ^ 52 * m) (-51 + e) = e + 1 := by
    unfold target
    rw [hproduct]
    omega
  have hreads : Reads (.ofMantissaAndAccuracy (2 ^ 52 * m) .exact) ((2 ^ 52 * m : Nat) : Rat) :=
    Locates.reads (by rfl)
  have hnearest := (hreads.shiftRight 52).nearest
  have hvalue : ((2 ^ 52 * m : Nat) : Rat) / 2 ^ 52 = m := by
    rw [Nat.cast_mul, Nat.cast_pow, Nat.cast_ofNat]
    exact mul_div_cancel_left₀ _ (by positivity)
  rw [hvalue] at hnearest
  have hshift : (e + 1 - (-51 + e)).toNat = 52 := by omega
  have hmul : UnpackedFloat.mul .binary64 (.finite .positive (2 ^ 52) (-51) (by norm_num)) (.finite s m e hm)
      = roundWithAccuracy .binary64 (.positive * s) (2 ^ 52 * m) (-51 + e) .exact := rfl
  have hsign : .positive * s = s := by cases s <;> rfl
  rw [hmul, hsign]
  refine roundWithAccuracy_of_rounded (k := 0) hm htarget (by omega) ?_ ?_ (Nat.div_one m) (by simp)
  . rw [hshift]
    exact hnearest.unique (nearest_self m)
  . unfold target
    rw [hlog]
    omega

theorem unpack_pack_of_large (hm : 0 < m) (h : 971 < e) :
    (Float.Model.pack (.finite s m e hm)).unpack = .infinity s := by
  have hbiased : 2 ^ Format.binary64.exponentBits
      ≤ (e + Format.binary64.exponentBias + Format.binary64.mantissaBitsWithoutImplicit).toNat + 1 := by
    change 2 ^ 11 ≤ (e + 1023 + 52).toNat + 1
    omega
  have hpack : UnpackedFloat.pack .binary64 (.finite s m e hm) = components s 2047#11 0#52 := by
    unfold UnpackedFloat.pack
    simp only [if_pos hbiased]
    rfl
  change UnpackedFloat.unpack .binary64 (UnpackedFloat.pack .binary64 (.finite s m e hm)) = _
  rw [hpack, unpack_components]
  rfl

theorem view_of_unpack_infinity (h : x.toModel.unpack = .infinity s) :
    view x = .infinite (s == .negative) := by
  unfold view
  rw [h]

theorem denotes_two_mul (h : Denotes x v) :
    Denotes (2 * x) (2 * v) ∨ ∃ negative, view (2 * x) = .infinite negative ∧ (negative ↔ v < 0) := by
  have hunpacked := h.unpacked
  generalize hx : x.toModel.unpack = u at hunpacked
  cases hunpacked with
  | zero s => exact .inl (denotes_two.mul h (by simpa using RoundsTo.zero))
  | @finite m e s hc =>
    by_cases he : e < 971
    . obtain ⟨m', e', hc', hvalue⟩ := hc.exists_double he
      have hexact := RoundsTo.finite s hc' hc'.rounds
      rw [hvalue, mul_left_comm] at hexact
      exact .inl (denotes_two.mul h hexact)
    . obtain rfl : e = 971 := by
        have := hc.le_greatest
        omega
      have hfull : 2 ^ 52 ≤ m := hc.full.resolve_right (by norm_num)
      have hproduct : 2 * x = .ofModel (.pack (.finite s m (971 + 1) hc.pos)) := by
        change Float.ofModel (.pack (UnpackedFloat.mul .binary64 (2 : Float).toModel.unpack x.toModel.unpack))
          = _
        rw [unpack_two, hx]
        rw [mul_two_of_full hc.pos hfull hc.lt hc.least_le]
      have hinfinite : (2 * x).toModel.unpack = .infinity s := by
        rw [hproduct]
        exact unpack_pack_of_large hc.pos (by norm_num)
      refine .inr ⟨_, view_of_unpack_infinity hinfinite, ?_⟩
      cases s with
      | positive => simp [unit, Sign.apply]
      | negative => simp [unit, Sign.apply, hc.pos]

theorem view_two_mul_of_infinite {negative : Bool} (h : view x = .infinite negative) :
    view (2 * x) = .infinite negative := by
  cases hx : x.toModel.unpack with
  | infinity s =>
    obtain rfl : (s == .negative) = negative := by
      rw [view_of_unpack_infinity hx] at h
      exact View.infinite.inj h
    apply view_of_unpack_infinity
    have hproduct : 2 * x = .ofModel (.pack (.infinity s)) := by
      change Float.ofModel (.pack (UnpackedFloat.mul .binary64 (2 : Float).toModel.unpack x.toModel.unpack))
        = _
      rw [unpack_two, hx]
      cases s <;> rfl
    rw [hproduct]
    cases s <;> rfl
  | notANumber | zero s | finite s m e hm =>
    unfold view at h
    rw [hx] at h
    cases h

end Binary
end TurtleCurves
