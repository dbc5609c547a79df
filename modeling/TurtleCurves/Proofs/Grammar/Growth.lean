import Mathlib
import TurtleCurves.Grammar.Growth
import TurtleCurves.Proofs.Grammar.Basic

/-!
This module contains the correctness of the predicted length: on sequences of letters one step with the
growth matrix does to the letter counts what one rewriting pass does to the sequence.
-/

namespace TurtleCurves
namespace Grammar

variable {g : Grammar}

theorem sum_map_eq_sum_alphabet {word : List Symbol} (hword : ∀ s ∈ word, s ∈ g.alphabet)
    (f : Symbol → Nat) :
    (word.map f).sum = (g.alphabet.map fun s => word.count s * f s).sum := by
  rw [Finset.sum_list_map_count]
  rw [← List.sum_toFinset _ g.distinct]
  simp only [Nat.nsmul_eq_mul]
  apply Finset.sum_subset
  . intro s hs
    rw [List.mem_toFinset] at hs ⊢
    exact hword s hs
  . intro s _ hs
    rw [List.mem_toFinset] at hs
    rw [List.count_eq_zero_of_not_mem hs]
    rw [Nat.zero_mul]

theorem sum_letterCounts {word : List Symbol} (hword : ∀ s ∈ word, s ∈ g.alphabet) :
    (g.letterCounts word).sum = word.length := by
  have := sum_map_eq_sum_alphabet hword fun _ => 1
  simpa [letterCounts] using this.symm

theorem count_rewrite {word : List Symbol} (hword : ∀ s ∈ word, s ∈ g.alphabet) (t : Symbol) :
    (rewrite g.image word).count t
      =
    (g.alphabet.map fun s => word.count s * (g.image s).count t).sum := by
  unfold rewrite
  rw [List.count_flatMap]
  apply sum_map_eq_sum_alphabet hword

-- The sum is generalized from zeros to any row, which is what the fold carries along.
theorem weightedSum_aux (letters alphabet : List Symbol) (counts start : Symbol → Nat)
    (entry : Symbol → Symbol → Nat) :
    ((letters.map counts).zip (letters.map fun s => alphabet.map (entry s))).foldl
        (fun sum (count, row) => List.zipWith (fun total part => total + count * part) sum row)
        (alphabet.map start)
      =
    alphabet.map fun t => start t + (letters.map fun s => counts s * entry s t).sum := by
  induction letters generalizing start with
  | nil => simp
  | cons s rest ih =>
    simp only [List.map_cons, List.zip_cons_cons, List.foldl_cons, List.zipWith_map,
      List.zipWith_self]
    rw [ih]
    simp only [List.sum_cons, Nat.add_assoc]

theorem weightedSum_letterCounts {word : List Symbol} (hword : ∀ s ∈ word, s ∈ g.alphabet) :
    weightedSum g.alphabet.length (g.letterCounts word) g.growth
      =
    g.letterCounts (rewrite g.image word) := by
  have hzeros : List.replicate g.alphabet.length 0 = g.alphabet.map fun _ => 0 := by
    rw [List.map_const']
  unfold weightedSum growth letterCounts
  rw [hzeros]
  rw [weightedSum_aux]
  simp only [Nat.zero_add, count_rewrite hword]

theorem countsAfter_letterCounts (hg : g.Closed) (passes : Nat) {word : List Symbol}
    (hword : ∀ s ∈ word, s ∈ g.alphabet) :
    countsAfter g.alphabet.length g.growth passes (g.letterCounts word)
      =
    g.letterCounts (expand g.image passes word) := by
  induction passes generalizing word with
  | zero => rfl
  | succ passes ih =>
    simp only [countsAfter, expand]
    rw [weightedSum_letterCounts hword]
    apply ih
    apply forall_mem_rewrite (image_within hg) hword

theorem predictedLength_eq_length_expand (hg : g.Closed) (passes : Nat) :
    g.predictedLength passes = (expand g.image passes g.seed).length := by
  unfold predictedLength
  rw [countsAfter_letterCounts hg passes hg.2]
  rw [← List.sum_eq_foldr]
  apply sum_letterCounts
  apply mem_alphabet_of_mem_expand hg

/-- The expansion of a grammar in which nothing is wrong succeeds and is as long as predicted. -/
theorem expand?_has_predictedLength (g : Grammar) (h : g.fault? = none) (passes : Nat) :
    (g.expand? passes).map List.length = some (g.predictedLength passes) := by
  rw [fault?_eq_none_iff] at h
  rw [expand?_eq_expand h]
  rw [predictedLength_eq_length_expand h]
  rfl

def mixed : Grammar where
  alphabetName := "Sym"
  alphabet := ["A", "B", "C"].map fun token => .letter "Sym" token token
  seed := ["B", "A", "C"].map fun token => .letter "Sym" token token
  productions :=
    [(.letter "Sym" "A" "A", ["A", "B", "C", "A"].map fun token => .letter "Sym" token token),
     (.letter "Sym" "B" "B", [])]
  distinct := by decide

theorem expand?_has_predictedLength_mixed :
    mixed.fault? = none ∧
      (mixed.expand? 5).map List.length = some (mixed.predictedLength 5) := by
  have h : mixed.fault? = none := by decide
  exact ⟨h, expand?_has_predictedLength mixed h 5⟩

end Grammar
end TurtleCurves
