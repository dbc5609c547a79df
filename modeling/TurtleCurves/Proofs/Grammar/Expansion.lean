import Mathlib.Data.List.Basic
import TurtleCurves.Grammar.Expansion

/-!
This module contains lemmas about expansion. The parts of a sequence expand independently of each other,
and passes add up. Symbols with some property that their images keep cannot be left by rewriting, and a
partial rule that covers them all expands just like a total one.
-/

namespace TurtleCurves

variable {σ : Type} {rule : σ → List σ} {rule? : σ → Option (List σ)} {P : σ → Prop}

@[simp]
theorem rewrite_singleton (rule : σ → List σ) (s : σ) : rewrite rule [s] = rule s := by
  simp [rewrite]

@[simp]
theorem expand_nil (rule : σ → List σ) (passes : Nat) : expand rule passes [] = [] := by
  induction passes with
  | zero => rfl
  | succ passes ih => exact ih

theorem expand_append (rule : σ → List σ) (passes : Nat) (v w : List σ) :
    expand rule passes (v ++ w) = expand rule passes v ++ expand rule passes w := by
  induction passes generalizing v w with
  | zero => rfl
  | succ passes ih =>
    simp only [expand]
    rw [rewrite_append]
    rw [ih]

theorem expand_cons (rule : σ → List σ) (passes : Nat) (s : σ) (word : List σ) :
    expand rule passes (s :: word) = expand rule passes [s] ++ expand rule passes word := by
  apply expand_append rule passes [s]

theorem expand_succ_singleton (rule : σ → List σ) (passes : Nat) (s : σ) :
    expand rule (passes + 1) [s] = expand rule passes (rule s) := by
  simp only [expand, rewrite_singleton]

theorem expand_eq_flatMap (rule : σ → List σ) (passes : Nat) (word : List σ) :
    expand rule passes word = word.flatMap fun s => expand rule passes [s] := by
  induction word with
  | nil => apply expand_nil
  | cons s rest ih =>
    rw [expand_cons]
    rw [ih]
    rw [List.flatMap_cons]

theorem expand_add (rule : σ → List σ) (m n : Nat) (word : List σ) :
    expand rule (m + n) word = expand rule n (expand rule m word) := by
  induction m generalizing word with
  | zero => rw [Nat.zero_add, expand_zero]
  | succ m ih =>
    rw [Nat.succ_add]
    simp only [expand]
    apply ih

theorem expand_one (rule : σ → List σ) (word : List σ) : expand rule 1 word = rewrite rule word := rfl

theorem expand_succ (rule : σ → List σ) (passes : Nat) (word : List σ) :
    expand rule (passes + 1) word = rewrite rule (expand rule passes word) := by
  rw [expand_add, expand_one]

theorem expand_of_fixed {s : σ} (h : rule s = [s]) (passes : Nat) :
    expand rule passes [s] = [s] := by
  induction passes with
  | zero => rfl
  | succ passes ih =>
    rw [expand_succ_singleton]
    rw [h]
    exact ih

theorem mem_rewrite {word : List σ} {t : σ} :
    t ∈ rewrite rule word ↔ ∃ s ∈ word, t ∈ rule s := by
  simp [rewrite]

theorem forall_mem_rewrite (hrule : ∀ s, P s → ∀ t ∈ rule s, P t) {word : List σ}
    (hword : ∀ s ∈ word, P s) :
    ∀ t ∈ rewrite rule word, P t := by
  intro t ht
  obtain ⟨s, hs, hts⟩ := mem_rewrite.1 ht
  exact hrule s (hword s hs) t hts

theorem forall_mem_expand (hrule : ∀ s, P s → ∀ t ∈ rule s, P t) (passes : Nat) {word : List σ}
    (hword : ∀ s ∈ word, P s) :
    ∀ t ∈ expand rule passes word, P t := by
  induction passes generalizing word with
  | zero => exact hword
  | succ passes ih =>
    apply ih
    apply forall_mem_rewrite hrule hword

theorem rewrite?_eq_some {word : List σ} (hword : ∀ s ∈ word, rule? s = some (rule s)) :
    rewrite? rule? word = some (rewrite rule word) := by
  have hmapM : word.mapM rule? = some (word.map rule) := by
    induction word with
    | nil => rfl
    | cons s rest ih =>
      have hs : rule? s = some (rule s) := hword s (by simp)
      have hrest := ih fun t ht => hword t (by simp [ht])
      simp [List.mapM_cons, hs, hrest]
  simp [rewrite?, rewrite, hmapM, List.flatMap_def]

theorem expand?_eq_some (hrule? : ∀ s, P s → rule? s = some (rule s))
    (hrule : ∀ s, P s → ∀ t ∈ rule s, P t) (passes : Nat) {word : List σ}
    (hword : ∀ s ∈ word, P s) :
    expand? rule? passes word = some (expand rule passes word) := by
  induction passes generalizing word with
  | zero => rfl
  | succ passes ih =>
    -- The property is what carries the induction: it holds of the next sequence as well.
    have hpass : rewrite? rule? word = some (rewrite rule word) := by
      apply rewrite?_eq_some
      intro s hs
      exact hrule? s (hword s hs)
    simp only [expand?, hpass, Option.bind_some, expand]
    apply ih
    apply forall_mem_rewrite hrule hword

end TurtleCurves
