import TurtleCurves.Proofs.Grammar.Growth

/-!
This module contains bounds on the length of expansions. If each image is at most, or at least, so long, every
pass multiplies the length at most, or at least, by as much. The predicted length of a grammar therefore stays
within the powers of its branching factor, and it never falls unless there is a letter that vanishes.
-/

namespace TurtleCurves

section

variable {σ : Type} {rule : σ → List σ} {P : σ → Prop} {word : List σ} {bound : Nat}

theorem length_rewrite (rule : σ → List σ) (word : List σ) :
    (rewrite rule word).length = (word.map fun s => (rule s).length).sum := by
  apply List.length_flatMap

theorem length_rewrite_le (h : ∀ s ∈ word, (rule s).length ≤ bound) :
    (rewrite rule word).length ≤ word.length * bound := by
  have hsum := List.sum_le_card_nsmul (word.map fun s => (rule s).length) bound
  rw [List.forall_mem_map, List.length_map, smul_eq_mul] at hsum
  rw [length_rewrite]
  apply hsum h

theorem le_length_rewrite (h : ∀ s ∈ word, bound ≤ (rule s).length) :
    word.length * bound ≤ (rewrite rule word).length := by
  have hsum := List.card_nsmul_le_sum (word.map fun s => (rule s).length) bound
  rw [List.forall_mem_map, List.length_map, smul_eq_mul] at hsum
  rw [length_rewrite]
  apply hsum h

-- The bound is asked only of symbols with a property that images keep, such as being a letter.
theorem length_expand_le (hrule : ∀ s, P s → ∀ t ∈ rule s, P t)
    (hbound : ∀ s, P s → (rule s).length ≤ bound) (passes : Nat) (hword : ∀ s ∈ word, P s) :
    (expand rule passes word).length ≤ word.length * bound ^ passes := by
  induction passes generalizing word with
  | zero => simp
  | succ passes ih =>
    have hpass : (rewrite rule word).length ≤ word.length * bound := by
      apply length_rewrite_le
      intro s hs
      exact hbound s (hword s hs)
    calc
      (expand rule passes (rewrite rule word)).length
      _ ≤ (rewrite rule word).length * bound ^ passes := ih (forall_mem_rewrite hrule hword)
      _ ≤ word.length * bound * bound ^ passes := Nat.mul_le_mul_right _ hpass
      _ = word.length * bound ^ (passes + 1) := by rw [Nat.mul_assoc, Nat.pow_succ']

theorem le_length_expand (hrule : ∀ s, P s → ∀ t ∈ rule s, P t)
    (hbound : ∀ s, P s → bound ≤ (rule s).length) (passes : Nat) (hword : ∀ s ∈ word, P s) :
    word.length * bound ^ passes ≤ (expand rule passes word).length := by
  induction passes generalizing word with
  | zero => simp
  | succ passes ih =>
    have hpass : word.length * bound ≤ (rewrite rule word).length := by
      apply le_length_rewrite
      intro s hs
      exact hbound s (hword s hs)
    calc
      word.length * bound ^ (passes + 1)
      _ = word.length * bound * bound ^ passes := by rw [Nat.mul_assoc, Nat.pow_succ']
      _ ≤ (rewrite rule word).length * bound ^ passes := Nat.mul_le_mul_right _ hpass
      _ ≤ (expand rule passes (rewrite rule word)).length := ih (forall_mem_rewrite hrule hword)

end

namespace Grammar

variable {g : Grammar} {bound : Nat}

theorem mem_table {entry : Symbol × List Symbol} :
    entry ∈ g.table ↔ ∃ s ∈ g.alphabet, (s, g.image s) = entry := by
  simp [table]

theorem branchingFactor?_eq_some_iff :
    g.branchingFactor? = some bound ↔
      (∃ s ∈ g.alphabet, (g.image s).length = bound) ∧
        ∀ s ∈ g.alphabet, (g.image s).length ≤ bound := by
  unfold branchingFactor?
  rw [List.max?_eq_some_iff]
  simp [table]

theorem exists_branchingFactor? (h : g.alphabet ≠ []) : ∃ bound, g.branchingFactor? = some bound := by
  rw [← Option.isSome_iff_exists]
  apply List.isSome_max?_of_ne_nil
  simpa [table] using h

theorem predictedLength_le (hg : g.Closed) (hbound : ∀ s ∈ g.alphabet, (g.image s).length ≤ bound)
    (passes : Nat) :
    g.predictedLength passes ≤ g.seed.length * bound ^ passes := by
  rw [predictedLength_eq_length_expand hg]
  apply length_expand_le (image_within hg) hbound passes hg.2

theorem le_predictedLength (hg : g.Closed) (hbound : ∀ s ∈ g.alphabet, bound ≤ (g.image s).length)
    (passes : Nat) :
    g.seed.length * bound ^ passes ≤ g.predictedLength passes := by
  rw [predictedLength_eq_length_expand hg]
  apply le_length_expand (image_within hg) hbound passes hg.2

theorem predictedLength_le_succ (hg : g.Closed) (himage : ∀ s ∈ g.alphabet, g.image s ≠ [])
    (passes : Nat) :
    g.predictedLength passes ≤ g.predictedLength (passes + 1) := by
  rw [predictedLength_eq_length_expand hg, predictedLength_eq_length_expand hg]
  rw [expand_succ]
  rw [← Nat.mul_one (expand g.image passes g.seed).length]
  apply le_length_rewrite
  intro s hs
  apply List.length_pos_of_ne_nil
  exact himage s (mem_alphabet_of_mem_expand hg passes s hs)

/--
A grammar in which nothing is wrong has a branching factor if it has letters. Its predicted length is at most the
starting length times the powers of that factor, and no less if all images are as long as the longest. It never
falls from one pass to the next if no image is empty.
-/
theorem predictedLength_bounds (g : Grammar) (h : g.fault? = none) (hletters : g.alphabet ≠ []) :
    ∃ bound, g.branchingFactor? = some bound ∧
      (∀ passes, g.predictedLength passes ≤ g.seed.length * bound ^ passes) ∧
      ((∀ s ∈ g.alphabet, (g.image s).length = bound) →
        ∀ passes, g.predictedLength passes = g.seed.length * bound ^ passes) ∧
      ((∀ entry ∈ g.table, entry.2 ≠ []) →
        ∀ passes, g.predictedLength passes ≤ g.predictedLength (passes + 1)) := by
  rw [fault?_eq_none_iff] at h
  obtain ⟨bound, hbound⟩ := exists_branchingFactor? hletters
  have hlongest := (branchingFactor?_eq_some_iff.1 hbound).2
  refine ⟨bound, hbound, predictedLength_le h hlongest, ?_, ?_⟩
  . intro hlengths passes
    apply Nat.le_antisymm
    . exact predictedLength_le h hlongest passes
    . apply le_predictedLength h
      intro s hs
      exact (hlengths s hs).ge
  . intro hentries
    apply predictedLength_le_succ h
    intro s hs
    exact hentries _ (mem_table.2 ⟨s, hs, rfl⟩)

def thueMorse : Grammar where
  alphabetName := "Sym"
  alphabet := ["A", "B"].map fun token => .letter "Sym" token token
  seed := ["A", "B", "B"].map fun token => .letter "Sym" token token
  productions :=
    [(.letter "Sym" "A" "A", ["A", "B"].map fun token => .letter "Sym" token token),
     (.letter "Sym" "B" "B", ["B", "A"].map fun token => .letter "Sym" token token)]
  distinct := by decide

theorem predictedLength_bounds_thueMorse :
    thueMorse.fault? = none ∧ thueMorse.alphabet ≠ [] ∧ thueMorse.branchingFactor? = some 2 ∧
      (∀ s ∈ thueMorse.alphabet, (thueMorse.image s).length = 2) ∧
      (∀ entry ∈ thueMorse.table, entry.2 ≠ []) ∧
      (∀ passes, thueMorse.predictedLength passes = 3 * 2 ^ passes) ∧
      ∀ passes, thueMorse.predictedLength passes ≤ thueMorse.predictedLength (passes + 1) := by
  have h : thueMorse.fault? = none := by decide
  have hletters : thueMorse.alphabet ≠ [] := by decide
  have hfactor : thueMorse.branchingFactor? = some 2 := by decide
  have hlengths : ∀ s ∈ thueMorse.alphabet, (thueMorse.image s).length = 2 := by decide
  have hentries : ∀ entry ∈ thueMorse.table, entry.2 ≠ [] := by decide
  obtain ⟨bound, hbound, _, hequal, hgrows⟩ := predictedLength_bounds thueMorse h hletters
  obtain rfl : 2 = bound := Option.some.inj (hfactor.symm.trans hbound)
  exact ⟨h, hletters, hfactor, hlengths, hentries, hequal hlengths, hgrows hentries⟩

-- A letter that vanishes can make the sequence shorter.
example : ({ mixed with seed := [.letter "Sym" "B" "B"] } : Grammar).predictedLength 1 = 0 := by decide

end Grammar
end TurtleCurves
