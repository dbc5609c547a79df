import Mathlib.Data.List.DropRight
import TurtleCurves.Proofs.Decimal.Compact

/-!
This module contains how compact notation is made of fixed notation: the zeros at the end are left out, and
then the point, if nothing follows it.
-/

namespace TurtleCurves
namespace Decimal

open Binary

variable {cs : List Char} {c : Char} {negative : Bool} {n places units : Nat} {x : Float}

/-- A text without the zeros at its end and without the point before them, if it has a point. -/
def stripped (cs : List Char) : List Char :=
  if '.' ∈ cs then (cs.rdropWhile (· == '0')).rdropWhile (· == '.') else cs

theorem stripped_of_not_mem (h : '.' ∉ cs) : stripped cs = cs :=
  if_neg h

theorem rdropWhile_of_getLast? (h : cs.getLast? ≠ some c) : cs.rdropWhile (· == c) = cs := by
  rw [List.rdropWhile_eq_self_iff]
  intro hne hlast
  apply h
  rw [List.getLast?_eq_some_getLast hne]
  exact congrArg some (beq_iff_eq.1 hlast)

theorem stripped_of_getLast? (hzero : cs.getLast? ≠ some '0') (hpoint : cs.getLast? ≠ some '.') :
    stripped cs = cs := by
  unfold stripped
  rw [rdropWhile_of_getLast? hzero, rdropWhile_of_getLast? hpoint]
  exact ite_self cs

theorem stripped_concat_zero (h : '.' ∈ cs) : stripped (cs ++ ['0']) = stripped cs := by
  unfold stripped
  rw [if_pos h, if_pos (List.mem_append_left _ h)]
  rw [List.rdropWhile_concat_pos _ _ _ rfl]

theorem stripped_point_zero (h : '.' ∉ cs) : stripped (cs ++ ['.', '0']) = cs := by
  have hsplit : cs ++ ['.', '0'] = cs ++ ['.'] ++ ['0'] := by simp
  have hlast : cs.getLast? ≠ some '.' := fun hlast => h (List.mem_of_getLast? hlast)
  unfold stripped
  rw [if_pos (by simp), hsplit]
  rw [List.rdropWhile_concat_pos _ _ _ rfl]
  rw [List.rdropWhile_concat_neg _ _ _ (by decide)]
  rw [List.rdropWhile_concat_pos _ _ _ rfl]
  exact rdropWhile_of_getLast? hlast

theorem mem_signed_point : '.' ∈ signed negative cs ↔ '.' ∈ cs := by
  cases negative <;> simp [signed]

theorem getLast?_signed (h : cs ≠ []) : (signed negative cs).getLast? = cs.getLast? := by
  cases negative with
  | false => rfl
  | true => exact List.getLast?_cons_of_ne_nil h

theorem point_not_mem_toDigits (n : Nat) : '.' ∉ Nat.toDigits 10 n := by
  intro h
  exact absurd ((isWhole_toDigits n).digits '.' h) (by decide)

theorem filled_of_mod (h : n % 10 = 0) (hpos : 0 < places) :
    filled (places + 1) n = filled places (n / 10) ++ ['0'] := by
  unfold filled
  by_cases hzero : n < 10
  . obtain rfl : n = 0 := by omega
    obtain ⟨k, rfl⟩ := Nat.exists_eq_add_of_le' hpos
    simp [List.replicate_succ']
  . rw [Nat.toDigits_of_base_le (by norm_num) (by omega), h]
    simp

theorem toList_pointed_of_mod (h : units % 10 = 0) (hpos : 0 < places) :
    (pointed units (places + 1)).toList = (pointed (units / 10) places).toList ++ ['0'] := by
  have hrest : units % 10 ^ (places + 1) % 10 = 0 := by
    rw [Nat.mod_mod_of_dvd _ (dvd_pow_self 10 (by omega))]
    exact h
  have hquotient : units % 10 ^ (places + 1) / 10 = units / 10 % 10 ^ places := by
    rw [pow_succ', Nat.mod_mul_right_div_self]
  rw [toList_pointed (by omega), toList_pointed hpos]
  rw [filled_of_mod hrest hpos, hquotient]
  rw [pow_succ', ← Nat.div_div_eq_div_mul]
  simp

theorem toList_pointed_one (h : units % 10 = 0) :
    (pointed units 1).toList = Nat.toDigits 10 (units / 10) ++ ['.', '0'] := by
  rw [toList_pointed Nat.one_pos, pow_one, h]
  rfl

theorem stripped_pointed_of_mod_ne (negative : Bool) (h : units % 10 ≠ 0) (hpos : 0 < places) :
    stripped (signed negative (pointed units places).toList)
      =
    signed negative (pointed units places).toList := by
  let fraction := filled places (units % 10 ^ places)
  have hrest : units % 10 ^ places % 10 ≠ 0 := by
    rw [Nat.mod_mod_of_dvd _ (dvd_pow_self 10 (by omega))]
    exact h
  have hne : fraction ≠ [] := by
    apply List.append_ne_nil_of_right_ne_nil
    exact Nat.toDigits_ne_nil
  have hlast : (signed negative (pointed units places).toList).getLast? = fraction.getLast? := by
    rw [toList_pointed hpos, getLast?_signed (by simp), List.getLast?_append_of_ne_nil _ (List.cons_ne_nil _ _)]
    exact List.getLast?_cons_of_ne_nil hne
  apply stripped_of_getLast?
  . rw [hlast]
    exact getLast?_filled hrest
  . rw [hlast]
    intro hpoint
    exact absurd (isDigit_filled _ _ '.' (List.mem_of_getLast? hpoint)) (by decide)

theorem stripped_pointed (negative : Bool) (units places : Nat) :
    stripped (signed negative (pointed units places).toList)
      =
    signed negative (pointed (dropZeros units places).1 (dropZeros units places).2).toList := by
  induction places generalizing units with
  | zero =>
    apply stripped_of_not_mem
    rw [mem_signed_point]
    simpa [pointed, dropZeros, Nat.toList_repr] using point_not_mem_toDigits units
  | succ places ih =>
    unfold dropZeros
    split
    . next hmod =>
      rw [← ih]
      by_cases hpos : 0 < places
      . rw [toList_pointed_of_mod hmod hpos, ← signed_append]
        apply stripped_concat_zero
        rw [mem_signed_point, toList_pointed hpos]
        simp
      . -- The last zero is the only digit after the point, which goes with it.
        obtain rfl : places = 0 := by omega
        have hwhole : '.' ∉ signed negative (pointed (units / 10) 0).toList := by
          rw [mem_signed_point]
          simpa [pointed, Nat.toList_repr] using point_not_mem_toDigits (units / 10)
        rw [stripped_of_not_mem hwhole, toList_pointed_one hmod]
        simp only [pointed, if_true, Nat.toList_repr] at hwhole ⊢
        rw [← signed_append]
        exact stripped_point_zero hwhole
    . next hmod => exact stripped_pointed_of_mod_ne negative hmod (Nat.succ_pos places)

theorem not_beq_zero_of_view (h : ∀ b, view x ≠ .finite b) : (x == 0) = false := by
  rw [← Bool.not_eq_true, beq_iff_compare]
  intro hcompare
  unfold view at h
  cases hunpack : x.toModel.unpack with
  | notANumber =>
    rw [hunpack] at hcompare
    cases hcompare
  | infinity sign =>
    rw [hunpack] at hcompare
    cases sign <;> cases hcompare
  | zero sign =>
    rw [hunpack] at h
    exact h _ rfl
  | finite sign m e hpos =>
    rw [hunpack] at h
    exact h _ rfl

theorem unitsOf_of_mantissa {b : Binary} (h : b.mantissa = 0) (places : Nat) : unitsOf places b = 0 := by
  have hdigits : (ofBinary b).digits = 0 := by
    unfold ofBinary
    split <;> simp [h]
  unfold unitsOf roundedAt
  rw [hdigits]
  split
  . exact Nat.zero_mul _
  . simp [roundDiv]

section Finite

variable {b : Binary} (hview : view x = .finite b)
include hview

theorem toList_fixed_of_view (places : Nat) :
    (fixed ⟨places, true⟩ x).toList = signed b.negative (pointed (unitsOf places b) places).toList := by
  unfold fixed
  rw [hview]
  simp only [Bool.true_or, Bool.and_true]
  exact toList_signed _ _

theorem toList_compact_eq_pointed (places : Nat) :
    (compact places x).toList
      =
    stripped (signed (b.negative && b.mantissa != 0) (pointed (unitsOf places b) places).toList) := by
  unfold compact
  rw [hview, stripped_pointed]
  exact toList_signed _ _

theorem beq_zero_iff_mantissa : (x == 0) = true ↔ b.mantissa = 0 := by
  have hx : Denotes x b.value := ⟨b, hview, rfl⟩
  rw [hx.beq_iff denotes_zero]
  unfold Binary.value
  have hpower : (2 : Rat) ^ b.exponent ≠ 0 := zpow_ne_zero _ two_ne_zero
  cases b.negative <;> simp [hpower]

end Finite

/-- A double is written with all its places first, zero without its sign. -/
theorem toList_compact_eq_stripped (places : Nat) (x : Float) :
    (compact places x).toList = stripped (fixed ⟨places, true⟩ (if x == 0 then 0 else x)).toList := by
  cases hview : view x with
  | undefined =>
    have hne : ¬(x == 0) = true := by simp [not_beq_zero_of_view, hview]
    rw [if_neg hne]
    unfold compact fixed
    rw [hview]
    have hword : stripped "nan".toList = "nan".toList := stripped_of_not_mem (by decide)
    exact hword.symm
  | infinite negative =>
    have hne : ¬(x == 0) = true := by simp [not_beq_zero_of_view, hview]
    rw [if_neg hne]
    unfold compact fixed
    rw [hview]
    have hword : stripped (infiniteText negative).toList = (infiniteText negative).toList := by
      apply stripped_of_not_mem
      cases negative <;> decide
    exact hword.symm
  | finite b =>
    rw [toList_compact_eq_pointed hview]
    by_cases hzero : b.mantissa = 0
    . have hplus : view (0 : Float) = .finite ⟨false, 0, 0⟩ := by decide +kernel
      rw [if_pos ((beq_zero_iff_mantissa hview).2 hzero), toList_fixed_of_view hplus]
      rw [unitsOf_of_mantissa hzero, unitsOf_of_mantissa rfl, hzero, bne_self_eq_false, Bool.and_false]
    . have hsign : (b.mantissa != 0) = true := bne_iff_ne.2 hzero
      rw [if_neg ((beq_zero_iff_mantissa hview).not.2 hzero), toList_fixed_of_view hview]
      rw [hsign, Bool.and_true]

theorem places?_eq_some_iff {precision : Value} :
    places? precision = some n ↔
      n < placesLimit ∧
        (precision = .int n ∨ ∃ text, precision = .text text ∧ placesOfText? text = some n) := by
  have hlimit (asked : Option Nat) :
      (asked.bind fun places => if places < placesLimit then some places else none) = some n
        ↔ n < placesLimit ∧ asked = some n := by
    cases asked with
    | none => simp
    | some places =>
      simp only [Option.bind_some, Option.ite_none_right_eq_some, Option.some.injEq]
      constructor <;> (rintro ⟨hlt, rfl⟩; exact ⟨hlt, rfl⟩)
  cases precision with
  | int i =>
    by_cases hsign : 0 ≤ i
    . obtain ⟨k, rfl⟩ := Int.eq_ofNat_of_zero_le hsign
      exact (hlimit (some k)).trans (by simp)
    . have hne : i ≠ n := by omega
      simp [places?, hsign, hne]
  | text s => exact (hlimit (placesOfText? s)).trans (by simp)
  | _ => simp [places?]

end Decimal
end TurtleCurves
