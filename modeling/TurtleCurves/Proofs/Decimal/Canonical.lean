import TurtleCurves.Proofs.Decimal.Compact

/-!
This module contains how far compact notation is canonical. Doubles that are rounded to the same number are
written in the same way, and no others are. Zero is the exception: it keeps the sign of a double that is
rounded to it.
-/

namespace TurtleCurves
namespace Decimal

open Binary

variable {m n : Numeral} {places : Nat} {t q r v w : Rat} {x y : Float} {b c : Binary}

namespace Numeral

theorem readLiteral_toList (n : Numeral) :
    readLiteral n.toList = some (⟨n.negative, n.whole, n.fraction, none⟩, []) := by
  unfold toList
  by_cases hfraction : n.fraction = []
  . rw [if_pos hfraction, hfraction]
    exact readLiteral_signed _ n.isWhole ends_nil.noDigit (readFraction_of_head?_ne ends_nil.noPoint)
      (readExponent_of_head? ends_nil.noPower)
  . have hread := readFraction_append n.isFraction hfraction ends_nil.noDigit
    rw [List.append_nil] at hread
    rw [if_neg hfraction]
    exact readLiteral_signed _ n.isWhole (noDigit_cons rfl) hread (readExponent_of_head? ends_nil.noPower)

theorem toList_injective (h : m.toList = n.toList) : m = n := by
  have hread := m.readLiteral_toList
  rw [h, n.readLiteral_toList] at hread
  cases m
  cases n
  cases hread
  rfl

theorem magnitude_eq_of_value_eq (h : m.value = n.value) : m.magnitude = n.magnitude := by
  rw [← abs_value, ← abs_value, h]

theorem magnitude_eq_zero_iff (n : Numeral) : n.magnitude = 0 ↔ n.value = 0 := by
  rw [← abs_value, abs_eq_zero]

theorem negative_eq_of_value_eq (h : m.value = n.value) (hne : m.value ≠ 0) : m.negative = n.negative := by
  have hmagnitude := magnitude_eq_of_value_eq h
  have hzero : m.magnitude ≠ 0 := (magnitude_eq_zero_iff m).not.2 hne
  unfold value at h
  rw [← hmagnitude] at h
  cases hm : m.negative with
  | false =>
    cases hn : n.negative with
    | false => rfl
    | true =>
      rw [hm, hn, if_neg Bool.false_ne_true, if_pos rfl] at h
      exact absurd (self_eq_neg.1 h) hzero
  | true =>
    cases hn : n.negative with
    | false =>
      rw [hm, hn, if_neg Bool.false_ne_true, if_pos rfl] at h
      exact absurd (neg_eq_self.1 h) hzero
    | true => rfl

end Numeral

theorem nearest_even_le {k l : Int} (hk : |t - k| ≤ 1 / 2) (hk' : |t - k| = 1 / 2 → Even k)
    (hl : |t - l| ≤ 1 / 2) (hl' : |t - l| = 1 / 2 → Even l) : k ≤ l := by
  by_contra hlt
  have hstep : (l : Rat) + 1 ≤ k := by exact_mod_cast (show l + 1 ≤ k by omega)
  have hlower := (abs_le.1 hk).1
  have hupper := (abs_le.1 hl).2
  have hnext : k = l + 1 := by
    have hle : (k : Rat) ≤ l + 1 := by linarith
    have : k ≤ l + 1 := by exact_mod_cast hle
    omega
  -- Both are half a unit away, but only one of them is even.
  have hkeven : Even k := by
    apply hk'
    rw [abs_of_nonpos (by linarith)]
    linarith
  have hleven : Even l := by
    apply hl'
    rw [abs_of_nonneg (by linarith)]
    linarith
  rw [hnext, Int.even_add_one] at hkeven
  exact hkeven hleven

theorem RoundedTo.unique (h : RoundedTo places q v) (h' : RoundedTo places q w) : v = w := by
  obtain ⟨k, rfl, hk, hk'⟩ := h
  obtain ⟨l, rfl, hl, hl'⟩ := h'
  rw [le_antisymm (nearest_even_le hk hk' hl hl') (nearest_even_le hl hl' hk hk')]

def hasSign (b : Binary) : Bool :=
  b.negative && b.mantissa != 0

theorem numeralOf_eq (hsign : hasSign b = hasSign c) (hunits : unitsOf places b = unitsOf places c) :
    numeralOf places b = numeralOf places c := by
  unfold hasSign at hsign
  unfold numeralOf
  simp only [hsign, hunits]

theorem unitsOf_eq (h : (numeralOf places b).magnitude = (numeralOf places c).magnitude) :
    unitsOf places b = unitsOf places c := by
  have hscale : (10 : Rat) ^ places ≠ 0 := by positivity
  rw [magnitude_numeralOf, magnitude_numeralOf, div_left_inj' hscale] at h
  exact_mod_cast h

theorem hasSign_eq_iff (b c : Binary) : hasSign b = hasSign c ↔ (b.value < 0 ↔ c.value < 0) := by
  rw [← value_neg_iff, ← value_neg_iff]
  exact Bool.eq_iff_iff

theorem numeralOf_eq_iff (places : Nat) (b c : Binary) :
    numeralOf places b = numeralOf places c ↔
      (numeralOf places b).value = (numeralOf places c).value ∧
        ((numeralOf places b).value = 0 → (b.value < 0 ↔ c.value < 0)) := by
  constructor
  . intro h
    have hsign := congrArg Numeral.negative h
    exact ⟨congrArg Numeral.value h, fun _ => (hasSign_eq_iff b c).1 hsign⟩
  . rintro ⟨hvalue, hzero⟩
    have hunits := unitsOf_eq (Numeral.magnitude_eq_of_value_eq hvalue)
    by_cases hne : (numeralOf places b).value = 0
    . exact numeralOf_eq ((hasSign_eq_iff b c).2 (hzero hne)) hunits
    . exact numeralOf_eq (Numeral.negative_eq_of_value_eq hvalue hne) hunits

theorem dropZeros_zero (places : Nat) : dropZeros 0 places = (0, 0) := by
  induction places with
  | zero => rfl
  | succ places ih => exact ih

def signedZero : Numeral where
  negative := true
  whole := ['0']
  fraction := []
  isWhole := isWhole_toDigits 0
  isFraction := by simp
  trimmed := by simp

theorem magnitude_signedZero : signedZero.magnitude = 0 := by
  have hdigits : digitsValue (signedZero.whole ++ signedZero.fraction) = 0 := rfl
  unfold Numeral.magnitude
  rw [hdigits, Nat.cast_zero, zero_div]

theorem numeralOf_eq_signedZero_iff (places : Nat) (b : Binary) :
    numeralOf places b = signedZero ↔ b.value < 0 ∧ (numeralOf places b).value = 0 := by
  rw [← value_neg_iff, ← Numeral.magnitude_eq_zero_iff]
  constructor
  . intro h
    refine ⟨congrArg Numeral.negative h, ?_⟩
    rw [h]
    exact magnitude_signedZero
  . rintro ⟨hsign, hzero⟩
    have hunits : unitsOf places b = 0 := by
      rw [magnitude_numeralOf, div_eq_zero_iff] at hzero
      exact_mod_cast hzero.resolve_right (by positivity)
    apply Numeral.toList_injective
    unfold numeralOf
    rw [toList_numeral, hsign, hunits, dropZeros_zero]
    rfl

/--
Two doubles are written in the same way exactly if they are rounded to the same number, and from the same side
if that is zero. What is rounded to zero from below is written with a sign.
-/
theorem compact_eq_iff (places : Nat) (hx : Denotes x q) (hy : Denotes y r) (hv : RoundedTo places q v)
    (hw : RoundedTo places r w) :
    (compact places x = compact places y ↔ v = w ∧ (v = 0 → (q < 0 ↔ r < 0))) ∧
      (compact places x = "-0" ↔ q < 0 ∧ v = 0) := by
  obtain ⟨b, hb, rfl⟩ := hx
  obtain ⟨c, hc, rfl⟩ := hy
  obtain rfl := hv.unique (roundedTo_numeralOf places b)
  obtain rfl := hw.unique (roundedTo_numeralOf places c)
  have hzero : "-0".toList = signedZero.toList := rfl
  constructor
  . rw [← String.toList_inj, toList_compact_of_view hb, toList_compact_of_view hc]
    rw [← numeralOf_eq_iff]
    exact ⟨Numeral.toList_injective, congrArg Numeral.toList⟩
  . rw [← String.toList_inj, toList_compact_of_view hb, hzero]
    rw [← numeralOf_eq_signedZero_iff]
    exact ⟨Numeral.toList_injective, congrArg Numeral.toList⟩

theorem compact_eq_iff_quarter :
    (compact 1 (0.25 : Float) = compact 1 (0.1875 : Float) ↔
        (1 / 5 : Rat) = 1 / 5 ∧ ((1 / 5 : Rat) = 0 → ((1 / 4 : Rat) < 0 ↔ (3 / 16 : Rat) < 0))) ∧
      (compact 1 (0.25 : Float) = "-0" ↔ (1 / 4 : Rat) < 0 ∧ (1 / 5 : Rat) = 0) := by
  have hx : Denotes 0.25 (1 / 4) := ⟨⟨false, 2 ^ 52, -54⟩, by rfl, by norm_num [Binary.value]⟩
  have hy : Denotes 0.1875 (3 / 16) := ⟨⟨false, 3 * 2 ^ 51, -55⟩, by rfl, by norm_num [Binary.value]⟩
  have hv : RoundedTo 1 (1 / 4) (1 / 5) := by
    refine ⟨2, by norm_num, ?_, fun _ => even_two⟩
    rw [abs_of_nonneg] <;> norm_num
  have hw : RoundedTo 1 (3 / 16) (1 / 5) := by
    refine ⟨2, by norm_num, ?_, fun _ => even_two⟩
    rw [abs_of_nonpos] <;> norm_num
  exact compact_eq_iff 1 hx hy hv hw

/-- A double just below zero is rounded to zero, but is not written as zero is. -/
theorem rounded_zero_signed :
    Denotes (-0.000000059604644775390625) (-1 / 2 ^ 24) ∧ Denotes 0 0 ∧
      RoundedTo 6 (-1 / 2 ^ 24) 0 ∧ RoundedTo 6 0 0 ∧
      compact 6 (-0.000000059604644775390625) = "-0" ∧ compact 6 0 = "0" := by
  refine ⟨⟨⟨true, 2 ^ 52, -76⟩, by rfl, by norm_num [Binary.value]⟩, denotes_zero, ?_, ?_, ?_, ?_⟩
  . refine ⟨0, by norm_num, ?_, fun _ => Even.zero⟩
    rw [abs_of_nonpos] <;> norm_num
  . exact ⟨0, by norm_num, by norm_num, fun _ => Even.zero⟩
  . decide +kernel
  . decide +kernel

end Decimal
end TurtleCurves
