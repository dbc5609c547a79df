import Mathlib
import TurtleCurves.Binary

/-!
This module contains the bits of doubles. A double is determined by its sign, mantissa and exponent, and
those of a finite one are in a form that leaves no choice between them.
-/

namespace TurtleCurves
namespace Binary

open Float.Model (Format UnpackedFloat)
open Float.Model.UnpackedFloat

/-- The mantissas and exponents of finite doubles: only those of the least exponent may be small. -/
structure Canonical (m : Nat) (e : Int) : Prop where
  pos : 0 < m
  lt : m < 2 ^ 53
  least_le : -1074 ≤ e
  le_greatest : e ≤ 971
  full : 2 ^ 52 ≤ m ∨ e = -1074

variable {m : Nat} {e : Int} {sign : Sign}

theorem log2_eq (hlow : 2 ^ 52 ≤ m) (hhigh : m < 2 ^ 53) : m.log2 = 52 := by
  rw [Nat.log2_eq_iff (by omega)]
  exact ⟨hlow, hhigh⟩

theorem log2_lt (hpos : 0 < m) (h : m < 2 ^ 52) : m.log2 < 52 := by
  rw [Nat.log2_lt (by omega)]
  exact h

abbrev components (sign : Sign) (exponent : BitVec 11) (mantissa : BitVec 52) : BitVec 64 :=
  packComponents .binary64 sign exponent mantissa

theorem toNat_one_append {w : Nat} (v : BitVec w) : (1#1 ++ v).toNat = 2 ^ w + v.toNat := by
  rw [BitVec.toNat_append]
  rw [← Nat.shiftLeft_add_eq_or_of_lt v.isLt]
  simp [Nat.shiftLeft_eq]

theorem toBitVec_ofBitVec (b : BitVec 1) : (Sign.ofBitVec b).toBitVec = b := by
  revert b
  decide

theorem ofBitVec_unpackSign (sign : Sign) (exponent : BitVec 11) (mantissa : BitVec 52) :
    Sign.ofBitVec (@unpackSign .binary64 (components sign exponent mantissa)) = sign := by
  have hbits : @unpackSign .binary64 (components sign exponent mantissa) = sign.toBitVec := by
    simp only [unpackSign, components, packComponents, BitVec.extractLsb]
    ext i hi
    grind
  rw [hbits]
  cases sign <;> rfl

theorem exists_components (b : BitVec 64) :
    ∃ sign exponent mantissa, b = components sign exponent mantissa := by
  refine ⟨.ofBitVec (@unpackSign .binary64 b), @unpackExponent .binary64 b,
    @unpackMantissa .binary64 b, ?_⟩
  simp only [components, packComponents, toBitVec_ofBitVec, unpackSign, unpackExponent,
    unpackMantissa, BitVec.extractLsb]
  ext i hi
  grind

theorem toNat_pos_of_ne_zero {w : Nat} {v : BitVec w} (h : v ≠ 0#w) : 0 < v.toNat := by
  rw [BitVec.toNat_pos, BitVec.pos_iff_ne_zero]
  exact h

theorem unpack_components (sign : Sign) (exponent : BitVec 11) (mantissa : BitVec 52) :
    UnpackedFloat.unpack .binary64 (components sign exponent mantissa) =
      if exponent = 2047#11 then
        if mantissa = 0#52 then .infinity sign else .notANumber
      else if exponent = 0#11 then
        if h : mantissa = 0#52 then .zero sign
        else .finite sign mantissa.toNat (-1074) (toNat_pos_of_ne_zero h)
      else .finite sign (2 ^ 52 + mantissa.toNat) (exponent.toNat - 1075) (by omega) := by
  have hbias : ((Format.binary64.exponentBias : Nat) : Int) = 1023 := rfl
  have hones : (-1#11) = 2047#11 := rfl
  unfold UnpackedFloat.unpack
  simp only [ofBitVec_unpackSign, unpackExponent_packComponents, unpackMantissa_packComponents,
    toNat_one_append, hbias, hones]
  split
  . rfl
  . split
    . next hzero =>
      split
      . rfl
      . rw [hzero]
        rfl
    . rfl

theorem pack_full (hm : 0 < m) (hlow : 2 ^ 52 ≤ m) (hhigh : m < 2 ^ 53) (hleast : -1074 ≤ e)
    (hgreatest : e ≤ 971) (sign : Sign) :
    UnpackedFloat.pack .binary64 (.finite sign m e hm)
      =
    components sign (.ofNat 11 (e + 1075).toNat) (.ofNat 52 m) := by
  have hbiased : (e + Format.binary64.exponentBias + Format.binary64.mantissaBitsWithoutImplicit).toNat
      = (e + 1075).toNat := by
    change (e + 1023 + 52).toNat = _
    omega
  unfold UnpackedFloat.pack
  simp only [hbiased, log2_eq hlow hhigh]
  rw [if_neg (by omega)]
  rfl

theorem pack_small (hm : 0 < m) (h : m < 2 ^ 52) (sign : Sign) :
    UnpackedFloat.pack .binary64 (.finite sign m (-1074) hm) = components sign 0#11 (.ofNat 52 m) := by
  have hlog := log2_lt hm h
  have hbits : Format.binary64.mantissaBits = 53 := rfl
  have hbiased :
      (-1074 + (Format.binary64.exponentBias : Int) + Format.binary64.mantissaBitsWithoutImplicit).toNat
        = 1 := rfl
  unfold UnpackedFloat.pack
  simp only [hbiased, hbits]
  rw [if_neg (by omega), if_neg (by omega)]

theorem ofNat_ne {w n k : Nat} (hn : n < 2 ^ w) (hk : k < 2 ^ w) (h : n ≠ k) :
    BitVec.ofNat w n ≠ BitVec.ofNat w k := by
  intro heq
  have hmod := congrArg BitVec.toNat heq
  rw [BitVec.toNat_ofNat, BitVec.toNat_ofNat, Nat.mod_eq_of_lt hn, Nat.mod_eq_of_lt hk] at hmod
  exact h hmod

theorem unpack_pack (h : Canonical m e) (sign : Sign) :
    (Float.Model.pack (.finite sign m e h.pos)).unpack = .finite sign m e h.pos := by
  change UnpackedFloat.unpack .binary64 (UnpackedFloat.pack .binary64 (.finite sign m e h.pos)) = _
  have hlt := h.lt
  have hleast := h.least_le
  have hgreatest := h.le_greatest
  by_cases hfull : 2 ^ 52 ≤ m
  . rw [pack_full h.pos hfull hlt hleast hgreatest]
    rw [unpack_components]
    rw [if_neg (ofNat_ne (by omega) (by decide) (by omega))]
    rw [if_neg (ofNat_ne (by omega) (by decide) (by omega))]
    simp only [BitVec.toNat_ofNat, UnpackedFloat.finite.injEq, true_and]
    omega
  . obtain rfl := h.full.resolve_left hfull
    have hpos := h.pos
    rw [pack_small hpos (by omega)]
    rw [unpack_components]
    rw [if_neg (by decide), if_pos rfl]
    rw [dif_neg (ofNat_ne (by omega) (by decide) (by omega))]
    simp only [BitVec.toNat_ofNat, UnpackedFloat.finite.injEq, true_and, and_true]
    omega

theorem canonical_of_unpack {x : Float.Model} {hm : 0 < m} (h : x.unpack = .finite sign m e hm) :
    Canonical m e := by
  obtain ⟨sign, exponent, mantissa, hbits⟩ := exists_components x.toBits.toBitVec
  have hmantissa := mantissa.isLt
  have hexponent := exponent.isLt
  change UnpackedFloat.unpack .binary64 x.toBits.toBitVec = _ at h
  rw [hbits] at h
  rw [unpack_components] at h
  split at h
  . split at h <;> cases h
  . next hnan =>
    split at h
    . split at h
      . cases h
      . cases h
        exact ⟨hm, by omega, by omega, by omega, .inr rfl⟩
    . next hzero =>
      have htop : exponent.toNat ≠ 2047 := by
        intro heq
        exact hnan (BitVec.eq_of_toNat_eq heq)
      have hbottom : exponent.toNat ≠ 0 := by
        intro heq
        exact hzero (BitVec.eq_of_toNat_eq heq)
      cases h
      exact ⟨hm, by omega, by omega, by omega, .inl (by omega)⟩

theorem pack_unpack (x : Float.Model) : Float.Model.pack x.unpack = x := by
  obtain ⟨bits, hvalid⟩ := x
  obtain ⟨sign, exponent, mantissa, hbits⟩ := exists_components bits.toBitVec
  have hpack : UnpackedFloat.pack .binary64 (UnpackedFloat.unpack .binary64 bits.toBitVec)
      = bits.toBitVec := by
    have hmantissa := mantissa.isLt
    have hexponent := exponent.isLt
    rw [hbits] at hvalid ⊢
    rw [unpack_components]
    split
    . next hspecial =>
      split
      . next hinfinite =>
        rw [hspecial, hinfinite]
        rfl
      . next hnan =>
        exact (hvalid.eq_packedNaN (by simpa using hspecial) (by simpa using hnan)).symm
    . next hspecial =>
      have htop : exponent.toNat ≠ 2047 := by
        intro heq
        exact hspecial (BitVec.eq_of_toNat_eq heq)
      split
      . next hzero =>
        split
        . next hnone =>
          rw [hzero, hnone]
          rfl
        . next hsome =>
          rw [pack_small (toNat_pos_of_ne_zero hsome) hmantissa]
          rw [hzero]
          simp
      . next hzero =>
        have hbottom : exponent.toNat ≠ 0 := by
          intro heq
          exact hzero (BitVec.eq_of_toNat_eq heq)
        rw [pack_full (by omega) (by omega) (by omega) (by omega) (by omega)]
        congr 1
        . apply BitVec.eq_of_toNat_eq
          rw [BitVec.toNat_ofNat]
          omega
        . apply BitVec.eq_of_toNat_eq
          rw [BitVec.toNat_ofNat]
          omega
  simp only [Float.Model.pack, Float.Model.unpack, hpack]

end Binary
end TurtleCurves
