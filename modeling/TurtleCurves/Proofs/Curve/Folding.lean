import Mathlib
import TurtleCurves.Proofs.Curve.Letter

/-!
This module contains the folds of the dragon. Between two steps the dragon turns by a quarter to one side
or the other, just as a strip of paper that was folded in half again and again is creased.
-/

namespace TurtleCurves
namespace Dragon

/-- To which side the strip is creased at a place, by the odd part of the place. -/
def fold (k : Nat) : Int :=
  if ordCompl[2] k % 4 = 1 then 1 else -1

theorem fold_pow_mul {m : Nat} (h : m % 2 = 1) (a : Nat) :
    fold (2 ^ a * m) = if m % 4 = 1 then 1 else -1 := by
  have hm : ¬2 ∣ m := by omega
  unfold fold
  rw [Nat.ordCompl_pow_mul_of_not_dvd a Nat.prime_two hm]

theorem fold_add {m k : Nat} (h : ¬2 ^ m ∣ k) (c : Nat) : fold (k + 2 ^ (m + 1) * c) = fold k := by
  have hk : k ≠ 0 := by
    rintro rfl
    exact h (dvd_zero _)
  obtain ⟨a, b, hb, rfl⟩ := Nat.exists_eq_two_pow_mul_odd hk
  rw [Nat.odd_iff] at hb
  have ha : a < m := by
    by_contra hle
    exact h (Dvd.dvd.mul_right (pow_dvd_pow 2 (not_lt.1 hle)) b)
  -- What is added is four times as much as the power of two, so the odd parts agree modulo four.
  have hsum : 2 ^ a * b + 2 ^ (m + 1) * c = 2 ^ a * (b + 4 * (2 ^ (m - 1 - a) * c)) := by
    have hpow : 2 ^ (m + 1) = 2 ^ a * 4 * 2 ^ (m - 1 - a) := by
      rw [show (4 : Nat) = 2 ^ 2 from rfl]
      rw [← pow_add, ← pow_add]
      congr 1
      omega
    rw [hpow]
    ring
  rw [hsum]
  rw [fold_pow_mul (by omega), fold_pow_mul hb]
  congr 2
  omega

def creases (first count : Nat) : List Int :=
  (List.range' first count).map fold

theorem creases_append (first m n : Nat) :
    creases first m ++ creases (first + m) n = creases first (m + n) := by
  unfold creases
  rw [← List.map_append]
  rw [List.range'_append_1]

theorem creases_succ (first count : Nat) :
    creases first (count + 1) = fold first :: creases (first + 1) count := by
  rfl

theorem creases_add {first count offset : Nat}
    (h : ∀ k, first ≤ k → k < first + count → fold (k + offset) = fold k) :
    creases (first + offset) count = creases first count := by
  unfold creases
  rw [Nat.add_comm, ← List.map_add_range']
  rw [List.map_map]
  apply List.map_congr_left
  intro k hk
  rw [List.mem_range'_1] at hk
  rw [Function.comp_apply, Nat.add_comm]
  exact h k hk.1 hk.2

-- A strip twice as long is creased at its middle, before it like the shorter strip, and after it like
-- that strip turned over, which is where the third quarter of a strip four times as long is.
theorem creases_odd (n c : Nat) :
    creases (2 ^ (n + 1) * (2 * c + 1)) (2 ^ (n + 1))
      =
    fold (2 ^ (n + 1) * (2 * c + 1)) :: (creases 1 (2 ^ n - 1) ++ creases (3 * 2 ^ n) (2 ^ n)) := by
  have hpos : 0 < 2 ^ n := Nat.two_pow_pos n
  have hcount : 2 ^ (n + 1) = (2 ^ n - 1 + 2 ^ n) + 1 := by omega
  have hleft : creases (1 + 2 ^ (n + 1) * (2 * c + 1)) (2 ^ n - 1) = creases 1 (2 ^ n - 1) := by
    apply creases_add
    intro k hfirst hlast
    apply fold_add
    apply Nat.not_dvd_of_pos_of_lt <;> omega
  have hright : creases (3 * 2 ^ n + 2 ^ (n + 2) * c) (2 ^ n) = creases (3 * 2 ^ n) (2 ^ n) := by
    apply creases_add
    intro k hfirst hlast
    apply fold_add
    -- These places lie between three and four times the power, so they are no multiples of its double.
    rintro ⟨d, rfl⟩
    rw [Nat.pow_succ, Nat.mul_assoc] at hfirst hlast
    have hlow : 3 ≤ 2 * d := Nat.le_of_mul_le_mul_left (by omega) hpos
    have hhigh : 2 * d < 4 := Nat.lt_of_mul_lt_mul_left (a := 2 ^ n) (by omega)
    omega
  have hmiddle :
      2 ^ (n + 1) * (2 * c + 1) + 1 + (2 ^ n - 1) = 3 * 2 ^ n + 2 ^ (n + 2) * c := by
    have hsum : 2 ^ (n + 1) * (2 * c + 1) + 2 ^ n = 3 * 2 ^ n + 2 ^ (n + 2) * c := by ring
    omega
  conv => lhs; arg 2; rw [hcount]
  rw [creases_succ]
  rw [← creases_append]
  rw [hmiddle, hright]
  rw [Nat.add_comm 1] at hleft
  rw [hleft]

def quarter (s : Symbol) : Int :=
  if s = plus then 1 else if s = minus then -1 else 0

def quarters (word : List Symbol) : Int :=
  word.count plus - word.count minus

theorem quarters_cons (s : Symbol) (word : List Symbol) :
    quarters (s :: word) = quarter s + quarters word := by
  unfold quarters quarter
  rw [List.count_cons, List.count_cons]
  by_cases hplus : s = plus
  . subst hplus
    have hne : plus ≠ minus := by decide
    simp [hne]
    omega
  . by_cases hminus : s = minus
    . subst hminus
      simp [hplus]
      omega
    . simp [hplus, hminus]

/-- The quarters turned before each step; those since the last step are carried along. -/
def gaps : Int → List Symbol → List Int
  | _, [] => []
  | turned, s :: rest => if s = F then turned :: gaps 0 rest else gaps (turned + quarter s) rest

def carry : Int → List Symbol → Int
  | turned, [] => turned
  | turned, s :: rest => if s = F then carry 0 rest else carry (turned + quarter s) rest

section Letters

variable (turned : Int) (rest : List Symbol)

@[simp]
theorem gaps_F : gaps turned (F :: rest) = turned :: gaps 0 rest := by
  simp [gaps]

@[simp]
theorem gaps_plus : gaps turned (plus :: rest) = gaps (turned + 1) rest := by
  have hF : plus ≠ F := by decide
  simp [gaps, quarter, hF]

@[simp]
theorem gaps_minus : gaps turned (minus :: rest) = gaps (turned - 1) rest := by
  have hF : minus ≠ F := by decide
  have hplus : minus ≠ plus := by decide
  simp [gaps, quarter, hF, hplus, Int.sub_eq_add_neg]

end Letters

theorem gaps_append (turned : Int) (v w : List Symbol) :
    gaps turned (v ++ w) = gaps turned v ++ gaps (carry turned v) w := by
  induction v generalizing turned with
  | nil => rfl
  | cons s rest ih =>
    simp only [List.cons_append, gaps, carry]
    split
    . rw [ih]
      rfl
    . rw [ih]

theorem carry_append (turned : Int) (v w : List Symbol) :
    carry turned (v ++ w) = carry (carry turned v) w := by
  induction v generalizing turned with
  | nil => rfl
  | cons s rest ih =>
    simp only [List.cons_append, carry]
    split
    . rw [ih]
    . rw [ih]

section Places

variable {turned g : Int} {word : List Symbol}

theorem exists_of_first_gap (h : (gaps turned word)[0]? = some g) :
    ∃ between after,
      word = between ++ F :: after ∧ F ∉ between ∧ turned + quarters between = g := by
  induction word generalizing turned with
  | nil => simp [gaps] at h
  | cons s rest ih =>
    by_cases hs : s = F
    . subst hs
      simp only [gaps_F, List.getElem?_cons_zero, Option.some.injEq] at h
      refine ⟨[], rest, rfl, List.not_mem_nil, ?_⟩
      rw [← h]
      exact Int.add_zero turned
    . rw [gaps, if_neg hs] at h
      obtain ⟨between, after, hrest, hF, hg⟩ := ih h
      refine ⟨s :: between, after, ?_, ?_, ?_⟩
      . rw [hrest]
        rfl
      . exact List.not_mem_cons_of_ne_of_not_mem (Ne.symm hs) hF
      . rw [quarters_cons]
        rw [← Int.add_assoc]
        exact hg

theorem exists_of_gap {k : Nat} (h : (gaps turned word)[k + 1]? = some g) :
    ∃ before between after,
      word = before ++ F :: (between ++ F :: after)
        ∧
      before.count F = k ∧ F ∉ between ∧ quarters between = g := by
  induction word generalizing turned k with
  | nil => simp [gaps] at h
  | cons s rest ih =>
    by_cases hs : s = F
    . subst hs
      simp only [gaps_F, List.getElem?_cons_succ] at h
      cases k with
      | zero =>
        obtain ⟨between, after, hrest, hF, hg⟩ := exists_of_first_gap h
        refine ⟨[], between, after, ?_, rfl, hF, ?_⟩
        . rw [hrest]
          rfl
        . rw [← hg]
          exact (Int.zero_add _).symm
      | succ j =>
        obtain ⟨before, between, after, hrest, hcount, hF, hg⟩ := ih h
        refine ⟨F :: before, between, after, ?_, ?_, hF, hg⟩
        . rw [hrest]
          rfl
        . rw [List.count_cons_self, hcount]
    . rw [gaps, if_neg hs] at h
      obtain ⟨before, between, after, hrest, hcount, hF, hg⟩ := ih h
      refine ⟨s :: before, between, after, ?_, ?_, hF, hg⟩
      . rw [hrest]
        rfl
      . rw [List.count_cons_of_ne hs, hcount]

end Places

def lead (n : Nat) : Int :=
  if n = 0 then 0 else 1

theorem carry_X_succ (n : Nat) : carry 0 (pattern.grown (n + 1) X) = lead (n + 1) := by
  have hsplit :
      pattern.grown (n + 1) X
        =
      (pattern.grown n X ++ plus :: pattern.grown n Y) ++ [F, plus] := by
    rw [grown_X]
    simp
  rw [hsplit]
  rw [carry_append]
  rfl

/--
The sequence that `X` grows into is creased like a strip up to its middle. What `Y` grows into begins at
the middle, in the first or in the second half of a longer strip, as the turn before it says.
-/
structure Creased (n : Nat) : Prop where
  gaps_X : gaps 0 (pattern.grown n X) = creases 1 (2 ^ n - 1)
  carry_X : carry 0 (pattern.grown n X) = lead n
  gaps_Y_left : gaps (lead n + 1) (pattern.grown n Y ++ [F]) = creases (2 ^ n) (2 ^ n)
  gaps_Y_right : gaps (lead n - 1) (pattern.grown n Y ++ [F]) = creases (3 * 2 ^ n) (2 ^ n)

namespace Creased

theorem zero : Creased 0 where
  gaps_X := by decide
  carry_X := by decide
  gaps_Y_left := by
    have hfold : fold 1 = 1 := fold_pow_mul (m := 1) rfl 0
    change _ = [fold 1]
    rw [hfold]
    decide
  gaps_Y_right := by
    have hfold : fold 3 = -1 := fold_pow_mul (m := 3) rfl 0
    change _ = [fold 3]
    rw [hfold]
    decide

variable {n : Nat} (h : Creased n)
include h

theorem gaps_X_succ : gaps 0 (pattern.grown (n + 1) X) = creases 1 (2 ^ (n + 1) - 1) := by
  have hpos : 0 < 2 ^ n := Nat.two_pow_pos n
  have htail : pattern.grown n Y ++ [F, plus] = (pattern.grown n Y ++ [F]) ++ [plus] := by simp
  rw [grown_X, htail]
  rw [gaps_append, h.gaps_X, h.carry_X]
  rw [gaps_plus]
  rw [gaps_append, h.gaps_Y_left]
  rw [gaps_plus, gaps, List.append_nil]
  -- The two ranges of places meet at the middle.
  have hjoin := creases_append 1 (2 ^ n - 1) (2 ^ n)
  rw [show 1 + (2 ^ n - 1) = 2 ^ n by omega] at hjoin
  rw [hjoin]
  congr 1
  omega

theorem gaps_Y_succ (turned : Int) :
    gaps turned (pattern.grown (n + 1) Y ++ [F])
      =
    (turned - 1) :: (creases 1 (2 ^ n - 1) ++ creases (3 * 2 ^ n) (2 ^ n)) := by
  rw [grown_Y]
  rw [List.cons_append, gaps_minus]
  rw [List.cons_append, gaps_F]
  rw [List.append_assoc, gaps_append, h.gaps_X, h.carry_X]
  rw [List.cons_append, gaps_minus]
  rw [h.gaps_Y_right]

theorem succ : Creased (n + 1) where
  gaps_X := h.gaps_X_succ
  carry_X := carry_X_succ n
  gaps_Y_left := by
    have hcreases := creases_odd n 0
    rw [fold_pow_mul (by rfl), Nat.mul_one] at hcreases
    rw [h.gaps_Y_succ]
    exact hcreases.symm
  gaps_Y_right := by
    have hcreases := creases_odd n 1
    rw [fold_pow_mul (by rfl), Nat.mul_comm (2 ^ (n + 1))] at hcreases
    rw [h.gaps_Y_succ]
    exact hcreases.symm

end Creased

theorem creased (n : Nat) : Creased n := by
  induction n with
  | zero => exact Creased.zero
  | succ n ih => exact ih.succ

/--
Between two steps of a dragon there is one quarter more to the left than to the right if the odd part of
the place is one more than a multiple of four, one more to the right if it is three more.
-/
theorem turns_between_steps (n k : Nat) (hfirst : 1 ≤ k) (hlast : k < 2 ^ n) :
    ∃ before between after,
      pattern.word n = .ok (before ++ F :: (between ++ F :: after))
        ∧
      before.count F + 1 = k ∧ F ∉ between
        ∧
      (
        (ordCompl[2] k % 4 = 1 ∧ (between.count plus : Int) - between.count minus = 1)
          ∨
        (ordCompl[2] k % 4 = 3 ∧ (between.count plus : Int) - between.count minus = -1)
      ) := by
  obtain ⟨j, rfl⟩ := Nat.exists_eq_add_of_le' hfirst
  have hgap : (gaps 0 (F :: pattern.grown n X))[j + 1]? = some (fold (j + 1)) := by
    rw [gaps_F, List.getElem?_cons_succ, (creased n).gaps_X]
    unfold creases
    rw [List.getElem?_map, List.getElem?_range' (by omega)]
    simp [Nat.add_comm]
  obtain ⟨before, between, after, hword, hcount, hF, hquarters⟩ := exists_of_gap hgap
  refine ⟨before, between, after, ?_, ?_, hF, ?_⟩
  . rw [word_eq, hword]
  . rw [hcount]
  . have hodd : ¬2 ∣ ordCompl[2] (j + 1) := by
      exact Nat.not_dvd_ordCompl Nat.prime_two (Nat.succ_ne_zero j)
    unfold quarters fold at hquarters
    split at hquarters
    . next hone => exact .inl ⟨hone, hquarters⟩
    . next hone => exact .inr ⟨by omega, hquarters⟩

theorem turns_between_steps_sixth :
    1 ≤ 6 ∧ 6 < 2 ^ 3
      ∧
    ∃ before between after,
      pattern.word 3 = .ok (before ++ F :: (between ++ F :: after))
        ∧
      before.count F + 1 = 6 ∧ F ∉ between
        ∧
      (
        (ordCompl[2] 6 % 4 = 1 ∧ (between.count plus : Int) - between.count minus = 1)
          ∨
        (ordCompl[2] 6 % 4 = 3 ∧ (between.count plus : Int) - between.count minus = -1)
      ) := by
  have hfirst : 1 ≤ 6 := by decide
  have hlast : 6 < 2 ^ 3 := by decide
  exact ⟨hfirst, hlast, turns_between_steps 3 6 hfirst hlast⟩

end Dragon
end TurtleCurves
