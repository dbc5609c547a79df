import TurtleCurves.Proofs.Grammar.Expansion

/-!
This module contains when a rule that has no image for some symbols can be used for an expansion. It has to
cover each sequence that a pass reads. Where symbols without an image stand for themselves, such a symbol never
vanishes again, so only the sequence that the last pass reads has to be looked at.
-/

namespace TurtleCurves

variable {σ : Type} {rule? : σ → Option (List σ)} {word : List σ}

def Covers (rule? : σ → Option (List σ)) (word : List σ) : Prop :=
  ∀ s ∈ word, rule? s ≠ none

theorem not_covers_iff : ¬Covers rule? word ↔ ∃ s ∈ word, rule? s = none := by
  simp [Covers]

theorem orSelf_of_covers (h : Covers rule? word) : ∀ s ∈ word, rule? s = some (orSelf rule? s) := by
  intro s hs
  cases himage : rule? s with
  | none => exact absurd himage (h s hs)
  | some image => rw [orSelf_of_some himage]

theorem mem_rewrite_orSelf {s : σ} (h : rule? s = none) (hs : s ∈ word) :
    s ∈ rewrite (orSelf rule?) word := by
  rw [mem_rewrite]
  refine ⟨s, hs, ?_⟩
  rw [orSelf_of_none h, List.mem_singleton]

theorem Covers.of_rewrite (h : Covers rule? (rewrite (orSelf rule?) word)) : Covers rule? word := by
  intro s hs himage
  exact h s (mem_rewrite_orSelf himage hs) himage

theorem Covers.of_expand {passes : Nat} (h : Covers rule? (expand (orSelf rule?) passes word)) :
    Covers rule? word := by
  induction passes generalizing word with
  | zero => exact h
  | succ passes ih =>
    apply Covers.of_rewrite
    apply ih
    exact h

theorem rewrite?_of_covers (h : Covers rule? word) :
    rewrite? rule? word = some (rewrite (orSelf rule?) word) := by
  apply rewrite?_eq_some
  exact orSelf_of_covers h

theorem rewrite?_of_not_covers (h : ¬Covers rule? word) : rewrite? rule? word = none := by
  have hmapM : word.mapM rule? = none := by
    induction word with
    | nil => simp [Covers] at h
    | cons s rest ih =>
      rw [List.mapM_cons]
      cases himage : rule? s with
      | none => rfl
      | some image =>
        have hrest : ¬Covers rule? rest := by
          simpa [Covers, himage] using h
        simp [ih hrest]
  rw [rewrite?, hmapM, Option.map_none]

theorem expand?_succ_of_covers {passes : Nat} (h : Covers rule? (expand (orSelf rule?) passes word)) :
    expand? rule? (passes + 1) word = some (expand (orSelf rule?) (passes + 1) word) := by
  induction passes generalizing word with
  | zero =>
    rw [expand_zero] at h
    rw [expand?, rewrite?_of_covers h]
    rfl
  | succ passes ih =>
    rw [expand?, rewrite?_of_covers h.of_expand, Option.bind_some]
    apply ih
    exact h

theorem expand?_succ_of_not_covers {passes : Nat}
    (h : ¬Covers rule? (expand (orSelf rule?) passes word)) :
    expand? rule? (passes + 1) word = none := by
  induction passes generalizing word with
  | zero =>
    rw [expand_zero] at h
    rw [expand?, rewrite?_of_not_covers h]
    rfl
  | succ passes ih =>
    -- The first pass fails, or it is the same with either rule and a later one fails.
    by_cases hword : Covers rule? word
    . rw [expand?, rewrite?_of_covers hword, Option.bind_some]
      apply ih
      exact h
    . rw [expand?, rewrite?_of_not_covers hword]
      rfl

/--
An expansion fails exactly if there is a last pass and the sequence that it would read, were symbols without an
image to stand for themselves, has such a symbol. An expansion that does not fail is the one in which they do.
-/
theorem expand?_outcome (rule? : σ → Option (List σ)) (passes : Nat) (word : List σ) :
    (expand? rule? passes word = none ↔
        1 ≤ passes ∧ ∃ s ∈ expand (orSelf rule?) (passes - 1) word, rule? s = none) ∧
      (expand? rule? passes word = none ∨
        expand? rule? passes word = some (expand (orSelf rule?) passes word)) := by
  cases passes with
  | zero => simp
  | succ passes =>
    rw [Nat.add_sub_cancel, ← not_covers_iff]
    by_cases h : Covers rule? (expand (orSelf rule?) passes word)
    . rw [expand?_succ_of_covers h]
      simp [h]
    . rw [expand?_succ_of_not_covers h]
      simp [h]

/-- The letter without an image is produced by the only pass of the first expansion, which does not read it. -/
example :
    let rule? := fun letter => if letter = 'A' then some ['A', 'B'] else none
    expand? rule? 1 ['A'] = some ['A', 'B'] ∧ expand? rule? 2 ['A'] = none := by
  decide

end TurtleCurves
