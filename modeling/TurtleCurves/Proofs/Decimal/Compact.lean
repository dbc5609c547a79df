import TurtleCurves.Decimal.Compact
import TurtleCurves.Proofs.Decimal.Reading
import TurtleCurves.Proofs.Binary.Order

/-!
This module contains the correctness of compact notation. The text of a double is a number in decimal
notation without superfluous zeros, and that number is the value of the double, rounded to the nearest number
with so many places.
-/

namespace TurtleCurves
namespace Decimal

open Binary

variable {n places units : Nat} {negative : Bool} {q r : Rat} {x : Float}

/-- A number in decimal notation. The whole part has no needless zero before it, the fraction none after it. -/
structure Numeral where
  negative : Bool
  whole : List Char
  fraction : List Char
  isWhole : IsWhole whole
  isFraction : ∀ c ∈ fraction, c.isDigit
  trimmed : fraction.getLast? ≠ some '0'

namespace Numeral

def toList (n : Numeral) : List Char :=
  signed n.negative (n.whole ++ if n.fraction = [] then [] else '.' :: n.fraction)

def magnitude (n : Numeral) : Rat :=
  digitsValue (n.whole ++ n.fraction) / 10 ^ n.fraction.length

def value (n : Numeral) : Rat :=
  if n.negative then -n.magnitude else n.magnitude

theorem magnitude_nonneg (n : Numeral) : 0 ≤ n.magnitude := by
  unfold magnitude
  positivity

theorem abs_value (n : Numeral) : |n.value| = n.magnitude := by
  have hnonneg := n.magnitude_nonneg
  unfold value
  split
  . rw [abs_neg, abs_of_nonneg hnonneg]
  . rw [abs_of_nonneg hnonneg]

end Numeral

/-- The second number has so many places and is the nearest to the first, the even one of two equally near. -/
def RoundedTo (places : Nat) (q r : Rat) : Prop :=
  ∃ units : Int, r = units / 10 ^ places ∧ |q * 10 ^ places - units| ≤ 1 / 2 ∧
    (|q * 10 ^ places - units| = 1 / 2 → Even units)

theorem nearest_roundedAt (d : Decimal) (k : Int) : Nearest (d.roundedAt k) (d.value / 10 ^ k) := by
  unfold roundedAt value
  split
  . next hle =>
    obtain ⟨j, hj⟩ : ∃ j : Nat, d.exponent = k + j := ⟨(d.exponent - k).toNat, by omega⟩
    have hvalue : (d.digits * 10 ^ d.exponent : Rat) / 10 ^ k = (d.digits * 10 ^ j : Nat) := by
      rw [hj, zpow_add₀ (by norm_num), zpow_natCast]
      push_cast
      field_simp
    rw [hvalue, show (d.exponent - k).toNat = j by omega]
    exact nearest_self _
  . next hlt =>
    obtain ⟨j, hj⟩ : ∃ j : Nat, k = d.exponent + j := ⟨(k - d.exponent).toNat, by omega⟩
    have hvalue : (d.digits * 10 ^ d.exponent : Rat) / 10 ^ k = d.digits / (10 ^ j : Nat) := by
      rw [hj, zpow_add₀ (by norm_num), zpow_natCast]
      push_cast
      field_simp
    rw [hvalue, show (k - d.exponent).toNat = j by omega]
    exact nearest_roundDiv (Nat.pow_pos (by norm_num))

theorem dropZeros_trimmed (units places : Nat) :
    (dropZeros units places).2 = 0 ∨ (dropZeros units places).1 % 10 ≠ 0 := by
  induction places generalizing units with
  | zero => exact .inl rfl
  | succ places ih =>
    unfold dropZeros
    split
    . exact ih (units / 10)
    . next h => exact .inr h

theorem getLast?_toDigits (n : Nat) : (Nat.toDigits 10 n).getLast? = some (Nat.digitChar (n % 10)) := by
  by_cases hlt : n < 10
  . rw [Nat.toDigits_of_lt_base hlt, Nat.mod_eq_of_lt hlt]
    rfl
  . rw [Nat.toDigits_of_base_le (by norm_num) (by omega)]
    exact List.getLast?_concat ..

theorem digitChar_ne_zero (h : n % 10 ≠ 0) : Nat.digitChar (n % 10) ≠ '0' := by
  have hlt := Nat.mod_lt n (show 0 < 10 by norm_num)
  generalize n % 10 = digit at *
  interval_cases digit
  . exact absurd rfl h
  all_goals decide

theorem getLast?_filled (h : n % 10 ≠ 0) : (filled places n).getLast? ≠ some '0' := by
  unfold filled
  rw [List.getLast?_append, getLast?_toDigits]
  simpa using digitChar_ne_zero h

def fractionDigits (units places : Nat) : List Char :=
  if places = 0 then [] else filled places (units % 10 ^ places)

theorem isDigit_fractionDigits (units places : Nat) : ∀ c ∈ fractionDigits units places, c.isDigit := by
  unfold fractionDigits
  split
  . simp
  . exact isDigit_filled _ _

theorem getLast?_fractionDigits (h : places = 0 ∨ units % 10 ≠ 0) :
    (fractionDigits units places).getLast? ≠ some '0' := by
  unfold fractionDigits
  split
  . simp
  . next hpos =>
    apply getLast?_filled
    rw [Nat.mod_mod_of_dvd _ (dvd_pow_self 10 hpos)]
    exact h.resolve_left hpos

theorem length_fractionDigits (units places : Nat) : (fractionDigits units places).length = places := by
  unfold fractionDigits
  split
  . next hzero => exact hzero.symm
  . next hpos => exact length_filled (by omega) (Nat.mod_lt _ (by positivity))

theorem digitsValue_fractionDigits (units places : Nat) :
    digitsValue (fractionDigits units places) = units % 10 ^ places := by
  unfold fractionDigits
  split
  . next hzero =>
    rw [hzero, pow_zero, Nat.mod_one]
    rfl
  . exact digitsValue_filled _ _

def numeral (negative : Bool) (units places : Nat) (h : places = 0 ∨ units % 10 ≠ 0) : Numeral where
  negative := negative
  whole := Nat.toDigits 10 (units / 10 ^ places)
  fraction := fractionDigits units places
  isWhole := isWhole_toDigits _
  isFraction := isDigit_fractionDigits units places
  trimmed := getLast?_fractionDigits h

variable {h : places = 0 ∨ units % 10 ≠ 0}

theorem toList_numeral :
    (numeral negative units places h).toList = signed negative (pointed units places).toList := by
  unfold numeral Numeral.toList
  by_cases hpos : places = 0
  . simp [hpos, pointed, fractionDigits, Nat.toList_repr]
  . have hne : fractionDigits units places ≠ [] := by
      rw [← List.length_pos_iff, length_fractionDigits]
      omega
    simp only [if_neg hne]
    rw [toList_pointed (by omega), fractionDigits, if_neg hpos]

theorem magnitude_numeral : (numeral negative units places h).magnitude = units / 10 ^ places := by
  unfold numeral Numeral.magnitude
  simp only
  rw [digitsValue_append, length_fractionDigits, digitsValue_toDigits, digitsValue_fractionDigits]
  rw [Nat.div_add_mod]

theorem roundedTo_of_nearest (h : Nearest units (|q| * 10 ^ places)) (hnegative : negative = true ↔ q < 0) :
    RoundedTo places q (if negative then -(units / 10 ^ places) else units / 10 ^ places) := by
  -- Units are rounded on either side of zero in the same way.
  obtain ⟨hlower, hupper, heven, heven'⟩ := h
  have hhalf : |(|q| * 10 ^ places - units : Rat)| = 1 / 2 → Even units := by
    intro heq
    rcases (abs_eq (by norm_num)).1 heq with heq | heq
    . exact Nat.even_iff.2 (heven' (by linarith))
    . exact Nat.even_iff.2 (heven (by linarith))
  have hnear : |(|q| * 10 ^ places - units : Rat)| ≤ 1 / 2 := abs_le.2 ⟨by linarith, by linarith⟩
  cases negative with
  | false =>
    have hnonneg : 0 ≤ q := not_lt.1 fun hneg => absurd (hnegative.2 hneg) (by decide)
    rw [abs_of_nonneg hnonneg] at hnear hhalf
    exact ⟨units, rfl, by exact_mod_cast hnear, by exact_mod_cast hhalf⟩
  | true =>
    have hneg : q < 0 := hnegative.1 rfl
    have hflip : (|q| * 10 ^ places - units : Rat) = -(q * 10 ^ places - (-units : Int)) := by
      rw [abs_of_neg hneg]
      push_cast
      ring
    rw [hflip, abs_neg] at hnear hhalf
    refine ⟨-units, ?_, hnear, fun heq => (hhalf heq).natCast.neg⟩
    simp [neg_div]

theorem RoundedTo.abs_sub_le (h : RoundedTo places q r) : |r - q| ≤ 1 / 2 / 10 ^ places := by
  obtain ⟨units, rfl, hnear, -⟩ := h
  have hscale : (0 : Rat) < 10 ^ places := by positivity
  have hscaled : units / 10 ^ places - q = -(q * 10 ^ places - units) / 10 ^ places := by
    field_simp
    ring
  rw [hscaled, abs_div, abs_neg, abs_of_pos hscale]
  gcongr

theorem isDigit_or_eq_of_mem_pointed {c : Char} (h : c ∈ (pointed n places).toList) : c.isDigit ∨ c = '.' := by
  by_cases hpos : 0 < places
  . rw [toList_pointed hpos, List.mem_append, List.mem_cons] at h
    rcases h with h | rfl | h
    . exact .inl ((isWhole_toDigits _).digits c h)
    . exact .inr rfl
    . exact .inl (isDigit_filled _ _ c h)
  . obtain rfl : places = 0 := by omega
    unfold pointed at h
    rw [if_pos rfl, Nat.toList_repr] at h
    exact .inl ((isWhole_toDigits n).digits c h)

def otherChars : List Char := ['.', '-', 'n', 'a', 'i', 'f']

theorem isDigit_or_mem_of_mem_compact {c : Char} (h : c ∈ (compact places x).toList) :
    c.isDigit ∨ c ∈ otherChars := by
  have hword (text : String) (hsubset : text.toList ⊆ otherChars) (h : c ∈ text.toList) :
      c.isDigit ∨ c ∈ otherChars := .inr (hsubset h)
  unfold compact at h
  split at h
  . exact hword "nan" (by decide) h
  . next negative _ =>
    cases negative with
    | false => exact hword "inf" (by decide) h
    | true => exact hword "-inf" (by decide) h
  . next b _ =>
    rw [String.toList_append, List.mem_append] at h
    rcases h with h | h
    . split at h
      . exact hword "-" (by decide) h
      . exact hword "" (by decide) h
    . rcases isDigit_or_eq_of_mem_pointed h with hdigit | rfl
      . exact .inl hdigit
      . exact hword "." (by decide) (by decide)

theorem not_mem_compact {c : Char} (hdigit : c.isDigit = false) (hother : c ∉ otherChars) (places : Nat)
    (x : Float) : c ∉ (compact places x).toList := by
  intro h
  rcases isDigit_or_mem_of_mem_compact h with hc | hc
  . rw [hdigit] at hc
    cases hc
  . exact hother hc

theorem value_neg_iff (b : Binary) : (b.negative && b.mantissa != 0) = true ↔ b.value < 0 := by
  rw [Bool.and_eq_true, bne_iff_ne]
  unfold Binary.value
  by_cases hzero : b.mantissa = 0
  . simp [hzero]
  . have hpos : (0 : Rat) < b.mantissa * 2 ^ b.exponent := by positivity
    cases b.negative with
    | false => simpa using hpos.le
    | true => simpa [hzero] using hpos

def unitsOf (places : Nat) (b : Binary) : Nat :=
  (ofBinary b).roundedAt (-places)

theorem nearest_unitsOf (places : Nat) (b : Binary) :
    Nearest (unitsOf places b) (|b.value| * 10 ^ places) := by
  have hnearest := nearest_roundedAt (ofBinary b) (-places)
  rwa [zpow_neg, div_inv_eq_mul, zpow_natCast, value_ofBinary, ← abs_value_eq] at hnearest

def numeralOf (places : Nat) (b : Binary) : Numeral :=
  numeral (b.negative && b.mantissa != 0) (dropZeros (unitsOf places b) places).1
    (dropZeros (unitsOf places b) places).2 (dropZeros_trimmed _ _)

theorem toList_compact_of_view {b : Binary} (hview : view x = .finite b) :
    (compact places x).toList = (numeralOf places b).toList := by
  unfold compact numeralOf
  rw [hview, toList_numeral]
  exact toList_signed _ _

theorem magnitude_numeralOf (places : Nat) (b : Binary) :
    (numeralOf places b).magnitude = unitsOf places b / 10 ^ places := by
  obtain ⟨hunits, hle⟩ := dropZeros_spec (unitsOf places b) places
  unfold numeralOf
  rw [magnitude_numeral]
  obtain ⟨k, hk⟩ := Nat.exists_eq_add_of_le hle
  rw [Nat.pow_eq, show places - (dropZeros (unitsOf places b) places).2 = k by omega] at hunits
  have hcast : (unitsOf places b : Rat) = (dropZeros (unitsOf places b) places).1 * 10 ^ k := by
    exact_mod_cast hunits.symm
  have hpower : (10 : Rat) ^ places = 10 ^ (dropZeros (unitsOf places b) places).2 * 10 ^ k := by
    rw [← pow_add, ← hk]
  rw [hcast, hpower]
  field_simp

theorem roundedTo_numeralOf (places : Nat) (b : Binary) :
    RoundedTo places b.value (numeralOf places b).value := by
  unfold Numeral.value
  rw [magnitude_numeralOf]
  exact roundedTo_of_nearest (nearest_unitsOf places b) (value_neg_iff b)

/--
A finite double is written as a numeral with at most so many places, whose number is the double rounded to
that many. It has a sign if the double is negative, and its whole part loses no zeros.
-/
theorem toList_compact (places : Nat) (hx : Denotes x q) :
    ∃ n : Numeral, (compact places x).toList = n.toList ∧ RoundedTo places q n.value ∧
      |n.value - q| ≤ 1 / 2 / 10 ^ places ∧ (n.negative = true ↔ q < 0) ∧ n.fraction.length ≤ places ∧
      n.whole = Nat.toDigits 10 ⌊|n.value|⌋₊ := by
  obtain ⟨b, hview, rfl⟩ := hx
  have hround := roundedTo_numeralOf places b
  refine ⟨numeralOf places b, toList_compact_of_view hview, hround, hround.abs_sub_le, value_neg_iff b, ?_, ?_⟩
  . exact (length_fractionDigits _ _).trans_le (dropZeros_spec (unitsOf places b) places).2
  . rw [Numeral.abs_value]
    unfold numeralOf
    rw [magnitude_numeral]
    have hfloor := Nat.floor_div_eq_div (K := Rat) (dropZeros (unitsOf places b) places).1
      (10 ^ (dropZeros (unitsOf places b) places).2)
    push_cast at hfloor
    rw [hfloor]
    rfl

theorem toList_compact_half :
    ∃ n : Numeral, (compact 1 (0.25 : Float)).toList = n.toList ∧ RoundedTo 1 (1 / 4) n.value ∧
      |n.value - 1 / 4| ≤ 1 / 2 / 10 ^ 1 ∧ (n.negative = true ↔ (1 / 4 : Rat) < 0) ∧
      n.fraction.length ≤ 1 ∧ n.whole = Nat.toDigits 10 ⌊|n.value|⌋₊ :=
  toList_compact 1 ⟨⟨false, 2 ^ 52, -54⟩, by rfl, by norm_num [Binary.value]⟩

end Decimal
end TurtleCurves
