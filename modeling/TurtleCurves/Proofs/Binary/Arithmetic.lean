import TurtleCurves.Proofs.Binary.Signed
import TurtleCurves.Proofs.Binary.Value

/-!
This module contains the arithmetic of doubles by value. An operation on finite doubles computes the exact
result and rounds it once, to the nearest double.
-/

namespace TurtleCurves
namespace Binary

open Float.Model (UnpackedFloat)
open Float.Model.UnpackedFloat

variable {x y : Float} {s : Sign} {m n : Nat} {e : Int} {r v w : Rat}

/-- A double is finite and has this value. -/
def Denotes (x : Float) (v : Rat) : Prop :=
  ∃ b, view x = .finite b ∧ b.value = v

theorem Denotes.unique {x : Float} {v w : Rat} (h : Denotes x v) (h' : Denotes x w) : v = w := by
  obtain ⟨b, hb, rfl⟩ := h
  obtain ⟨b', hb', rfl⟩ := h'
  rw [hb, View.finite.injEq] at hb'
  rw [hb']

theorem denotes_of_unpack_zero (h : x.toModel.unpack = .zero s) : Denotes x 0 := by
  refine ⟨⟨s == .negative, 0, 0⟩, ?_, by simp [value]⟩
  unfold view
  rw [h]

theorem denotes_of_unpack_finite {hm : 0 < m} (h : x.toModel.unpack = .finite s m e hm) :
    Denotes x (unit s * (m * 2 ^ e)) := by
  refine ⟨⟨s == .negative, m, e⟩, ?_, ?_⟩
  . unfold view
    rw [h]
  . cases s <;> simp [value, unit, Sign.apply]

theorem denotes_pack_zero (s : Sign) : Denotes (.ofModel (.pack (.zero s))) 0 := by
  apply denotes_of_unpack_zero (s := s)
  cases s <;> rfl

theorem denotes_pack (hc : Canonical m e) (s : Sign) :
    Denotes (.ofModel (.pack (.finite s m e hc.pos))) (unit s * (m * 2 ^ e)) :=
  denotes_of_unpack_finite (unpack_pack hc s)

inductive Unpacked : UnpackedFloat → Rat → Prop
  | zero (s : Sign) : Unpacked (.zero s) 0
  | finite {m : Nat} {e : Int} (s : Sign) (hc : Canonical m e) :
      Unpacked (.finite s m e hc.pos) (unit s * (m * 2 ^ e))

theorem Denotes.unpacked (h : Denotes x v) : Unpacked x.toModel.unpack v := by
  obtain ⟨b, hview, rfl⟩ := h
  unfold view at hview
  cases hx : x.toModel.unpack with
  | notANumber | infinity s =>
    rw [hx] at hview
    cases hview
  | zero s =>
    rw [hx] at hview
    cases hview
    simpa [value] using Unpacked.zero s
  | finite s m e hm =>
    rw [hx] at hview
    cases hview
    have hunpacked := Unpacked.finite s (canonical_of_unpack hx)
    cases s <;> simpa [value, unit, Sign.apply] using hunpacked

theorem Unpacked.roundsTo {u : UnpackedFloat} (h : Unpacked u v) : RoundsTo v v := by
  cases h with
  | zero => exact .zero
  | finite s hc => exact .finite s hc hc.rounds

theorem Denotes.roundsTo (h : Denotes x v) : RoundsTo v v :=
  h.unpacked.roundsTo

theorem log2_shiftLeft (h : 0 < n) (k : Nat) : (n <<< k).log2 = n.log2 + k := by
  have hlow := Nat.log2_self_le h.ne'
  have hhigh := @Nat.lt_log2_self n
  rw [Nat.shiftLeft_eq]
  rw [Nat.log2_eq_iff (by positivity)]
  constructor
  . rw [Nat.pow_add]
    gcongr
  . rw [show n.log2 + k + 1 = n.log2 + 1 + k by omega]
    rw [Nat.pow_add]
    gcongr

theorem round_eq (hn : 0 < n) {E : Int} (hc : Fits m e) (hr : Rounds m e (n * 2 ^ E)) (s : Sign) :
    UnpackedFloat.round .binary64 s n E = .finite s m e hc.pos := by
  -- A mantissa that is too short is filled up with zeros before it is rounded.
  obtain ⟨k, hk⟩ : ∃ k, (E - target n E).toNat = k := ⟨_, rfl⟩
  have htarget : target (n <<< k) (E - k) = target n E := by
    unfold target
    rw [log2_shiftLeft hn]
    push_cast
    ring_nf
  have hvalue : (n * 2 ^ E : Rat) = (n <<< k : Nat) * 2 ^ (E - k) := by
    rw [Nat.shiftLeft_eq]
    rw [zpow_sub₀ (by norm_num), zpow_natCast]
    push_cast
    field_simp
  have hexact : Locates (n <<< k) .exact ((n <<< k : Nat) : Rat) := rfl
  have hrounded := roundWithAccuracy_eq hc hr hexact hvalue (by rw [htarget]; omega) s
  unfold UnpackedFloat.round decreaseExponent
  change roundWithAccuracy .binary64 s (n <<< (E - target n E).toNat)
    (E - ((E - target n E).toNat : Int)) .exact = _
  rw [hk]
  exact hrounded

theorem denotes_normalize {M E : Int} (h : RoundsTo (M * 2 ^ E) r) (s : Sign) :
    Denotes (.ofModel (.pack (UnpackedFloat.normalize .binary64 M E s))) r := by
  have hunit : (0 : Rat) < 2 ^ E := by positivity
  unfold UnpackedFloat.normalize
  rcases lt_trichotomy M 0 with hneg | rfl | hpos
  . have hcast : ((-M).toNat : Rat) = -M := by exact_mod_cast Int.toNat_of_nonneg (by omega : 0 ≤ -M)
    have hsigned : RoundsTo (unit .negative * ((-M).toNat * 2 ^ E)) r := by
      simpa [unit, Sign.apply, hcast] using h
    have hmantissa : (0 : Rat) < (-M).toNat := by exact_mod_cast (by omega : 0 < (-M).toNat)
    obtain ⟨m, e, hc, hr, rfl⟩ := hsigned.of_pos (by positivity)
    rw [Int.compare_eq_lt.2 hneg]
    simp only
    rw [round_eq (by omega) hc.fits hr]
    exact denotes_pack hc .negative
  . obtain rfl := RoundsTo.eq_zero (by simpa using h)
    exact denotes_pack_zero s
  . have hcast : (M.toNat : Rat) = M := by exact_mod_cast Int.toNat_of_nonneg hpos.le
    have hsigned : RoundsTo (unit .positive * (M.toNat * 2 ^ E)) r := by
      simpa [unit, Sign.apply, hcast] using h
    have hmantissa : (0 : Rat) < M.toNat := by exact_mod_cast (by omega : 0 < M.toNat)
    obtain ⟨m, e, hc, hr, rfl⟩ := hsigned.of_pos (by positivity)
    rw [Int.compare_eq_gt.2 hpos]
    simp only
    rw [round_eq (by omega) hc.fits hr]
    exact denotes_pack hc .positive

theorem cast_shiftLeft {E : Int} (h : E ≤ e) (s : Sign) :
    (s.apply (m <<< (e - E).toNat : Nat) : Rat) * 2 ^ E = unit s * (m * 2 ^ e) := by
  obtain ⟨k, rfl⟩ : ∃ k : Nat, e = E + k := ⟨(e - E).toNat, by omega⟩
  rw [cast_apply]
  rw [show (E + k - E).toNat = k by omega, Nat.shiftLeft_eq]
  rw [zpow_add₀ (by norm_num), zpow_natCast]
  push_cast
  ring

namespace Unpacked

variable {a b : UnpackedFloat}

theorem denotes_add (ha : Unpacked a v) (hb : Unpacked b w) (h : RoundsTo (v + w) r) :
    Denotes (.ofModel (.pack (UnpackedFloat.add .binary64 a b))) r := by
  have hv := ha.roundsTo
  have hw := hb.roundsTo
  cases ha with
  | zero s =>
    obtain rfl := h.unique (by rwa [zero_add])
    cases hb with
    | zero t => cases s <;> cases t <;> exact denotes_pack_zero _
    | finite t hc => exact denotes_pack hc t
  | finite s hc =>
    cases hb with
    | zero t =>
      obtain rfl := h.unique (by rwa [add_zero])
      exact denotes_pack hc s
    | finite t hc' =>
      apply denotes_normalize
      rw [Int.cast_add, add_mul]
      rw [cast_shiftLeft (Int.min_le_left ..), cast_shiftLeft (Int.min_le_right ..)]
      exact h

theorem denotes_sub (ha : Unpacked a v) (hb : Unpacked b w) (h : RoundsTo (v - w) r) :
    Denotes (.ofModel (.pack (UnpackedFloat.sub .binary64 a b))) r := by
  have hv := ha.roundsTo
  have hw := hb.roundsTo
  cases ha with
  | zero s =>
    obtain rfl := h.unique (by rw [zero_sub]; exact hw.neg)
    cases hb with
    | zero t =>
      rw [neg_zero]
      cases s <;> cases t <;> exact denotes_pack_zero _
    | finite t hc =>
      rw [← neg_mul, ← unit_neg]
      exact denotes_pack hc (-t)
  | finite s hc =>
    cases hb with
    | zero t =>
      obtain rfl := h.unique (by rwa [sub_zero])
      exact denotes_pack hc s
    | finite t hc' =>
      apply denotes_normalize
      rw [Int.cast_sub, sub_mul]
      rw [cast_shiftLeft (Int.min_le_left ..), cast_shiftLeft (Int.min_le_right ..)]
      exact h

theorem le_target_mul {m₁ m₂ : Nat} {e₁ e₂ : Int} (h₁ : Canonical m₁ e₁) (h₂ : Canonical m₂ e₂) :
    e₁ + e₂ ≤ target (m₁ * m₂) (e₁ + e₂) := by
  -- The product of two mantissas is full, or its exponent is below the least.
  have hfull (m n : Nat) (hm : 2 ^ 52 ≤ m) (hn : 0 < n) : 52 ≤ (m * n).log2 := by
    rw [Nat.le_log2 (by positivity)]
    exact hm.trans (Nat.le_mul_of_pos_right m hn)
  rcases h₁.full with hfull₁ | rfl
  . exact le_target (.inl (hfull m₁ m₂ hfull₁ h₂.pos))
  . rcases h₂.full with hfull₂ | rfl
    . rw [mul_comm]
      exact le_target (.inl (hfull m₂ m₁ hfull₂ h₁.pos))
    . exact le_target (.inr (by norm_num))

theorem denotes_mul (ha : Unpacked a v) (hb : Unpacked b w) (h : RoundsTo (v * w) r) :
    Denotes (.ofModel (.pack (UnpackedFloat.mul .binary64 a b))) r := by
  cases ha with
  | zero s =>
    obtain rfl := RoundsTo.eq_zero (by rwa [zero_mul] at h)
    cases hb with
    | zero t => exact denotes_pack_zero (s * t)
    | finite t hc => exact denotes_pack_zero (s * t)
  | @finite m e s hc =>
    cases hb with
    | zero t =>
      obtain rfl := RoundsTo.eq_zero (by rwa [mul_zero] at h)
      exact denotes_pack_zero (s * t)
    | @finite m' e' t hc' =>
      have hpos : (0 : Rat) < m * 2 ^ e * (m' * 2 ^ e') := by
        have := hc.pos
        have := hc'.pos
        positivity
      have hsigned : RoundsTo (unit (s * t) * (m * 2 ^ e * (m' * 2 ^ e'))) r := by
        rwa [unit_mul, mul_mul_mul_comm]
      obtain ⟨_, _, hc'', hr, rfl⟩ := hsigned.of_pos hpos
      rw [mul_eq hc.pos hc'.pos (le_target_mul hc hc') hc''.fits hr]
      exact denotes_pack hc'' (s * t)

theorem denotes_div (ha : Unpacked a v) (hb : Unpacked b w) (hw : w ≠ 0) (h : RoundsTo (v / w) r) :
    Denotes (.ofModel (.pack (UnpackedFloat.div .binary64 a b))) r := by
  cases hb with
  | zero t => exact absurd rfl hw
  | @finite m' e' t hc' =>
    cases ha with
    | zero s =>
      obtain rfl := RoundsTo.eq_zero (by rwa [zero_div] at h)
      exact denotes_pack_zero (s / t)
    | @finite m e s hc =>
      have hpos : (0 : Rat) < m * 2 ^ e / (m' * 2 ^ e') := by
        have := hc.pos
        have := hc'.pos
        positivity
      have hsigned : RoundsTo (unit (s / t) * (m * 2 ^ e / (m' * 2 ^ e'))) r := by
        rwa [unit_div, div_mul_div_comm]
      obtain ⟨_, _, hc'', hr, rfl⟩ := hsigned.of_pos hpos
      rw [div_eq hc.pos hc'.pos hc''.fits hr]
      exact denotes_pack hc'' (s / t)

end Unpacked

namespace Denotes

theorem add (hx : Denotes x v) (hy : Denotes y w) (h : RoundsTo (v + w) r) : Denotes (x + y) r :=
  hx.unpacked.denotes_add hy.unpacked h

theorem sub (hx : Denotes x v) (hy : Denotes y w) (h : RoundsTo (v - w) r) : Denotes (x - y) r :=
  hx.unpacked.denotes_sub hy.unpacked h

theorem mul (hx : Denotes x v) (hy : Denotes y w) (h : RoundsTo (v * w) r) : Denotes (x * y) r :=
  hx.unpacked.denotes_mul hy.unpacked h

theorem div (hx : Denotes x v) (hy : Denotes y w) (hw : w ≠ 0) (h : RoundsTo (v / w) r) :
    Denotes (x / y) r :=
  hx.unpacked.denotes_div hy.unpacked hw h

end Denotes

theorem denotes_ofNat (h : RoundsTo n r) : Denotes (Float.ofNat n) r := by
  by_cases hpos : 0 < n
  . obtain ⟨m, e, hc, hr, rfl⟩ := h.eq_positive (by exact_mod_cast hpos)
    have hdouble : Float.ofNat n = double hc := ofScientific_eq (p := 0) hc hpos (by simpa using hr)
    have hdenotes := denotes_pack hc .positive
    rw [unit_positive, one_mul] at hdenotes
    rw [hdouble]
    exact hdenotes
  . obtain rfl : n = 0 := Nat.eq_zero_of_not_pos hpos
    obtain rfl := RoundsTo.eq_zero (by simpa using h)
    exact denotes_of_unpack_zero (s := .positive) rfl

end Binary
end TurtleCurves
