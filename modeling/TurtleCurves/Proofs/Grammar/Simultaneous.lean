import TurtleCurves.Proofs.Grammar.Expansion

/-!
This module contains what makes rewriting simultaneous. The parts of a sequence expand independently of each
other, passes add up, and a pass reads only what the one before it has produced. These laws leave no choice:
only expansion has them. Gathering the images one after another while the sequence is read has them as well.
-/

namespace TurtleCurves

variable {σ : Type} {rule : σ → List σ} {f : Nat → List σ → List σ}

/-- The next sequence, to which each symbol that is read adds its image. -/
def gather (rule : σ → List σ) (word : List σ) : List σ :=
  word.foldl (fun following s => following ++ rule s) []

def gatherAll (rule : σ → List σ) (passes : Nat) (word : List σ) : List σ :=
  (List.range passes).foldl (fun current _ => gather rule current) word

theorem gather_eq_rewrite (rule : σ → List σ) (word : List σ) : gather rule word = rewrite rule word :=
  List.flatMap_eq_foldl.symm

theorem gatherAll_eq_expand (rule : σ → List σ) (passes : Nat) (word : List σ) :
    gatherAll rule passes word = expand rule passes word := by
  induction passes with
  | zero => rfl
  | succ passes ih =>
    unfold gatherAll at ih ⊢
    rw [List.range_succ, List.foldl_concat]
    rw [ih, gather_eq_rewrite]
    rw [expand_succ]

/-- A way of rewriting that treats the parts of a sequence, and its passes, independently of each other. -/
structure Simultaneous (rule : σ → List σ) (f : Nat → List σ → List σ) : Prop where
  zero (word : List σ) : f 0 word = word
  one (s : σ) : f 1 [s] = rule s
  append (passes : Nat) (v w : List σ) : f passes (v ++ w) = f passes v ++ f passes w
  add (m n : Nat) (word : List σ) : f (m + n) word = f n (f m word)

theorem simultaneous_expand (rule : σ → List σ) : Simultaneous rule (expand rule) where
  zero := expand_zero rule
  one := rewrite_singleton rule
  append := expand_append rule
  add := expand_add rule

namespace Simultaneous

theorem nil (h : Simultaneous rule f) (passes : Nat) : f passes [] = [] := by
  have hlength := congrArg List.length (h.append passes [] [])
  rw [List.append_nil, List.length_append] at hlength
  apply List.eq_nil_of_length_eq_zero
  omega

theorem pass_eq (h : Simultaneous rule f) (word : List σ) : f 1 word = rewrite rule word := by
  induction word with
  | nil => apply h.nil
  | cons s rest ih =>
    calc
      f 1 (s :: rest) = f 1 [s] ++ f 1 rest := h.append 1 [s] rest
      _ = rule s ++ rewrite rule rest := by rw [h.one, ih]
      _ = rewrite rule (s :: rest) := List.flatMap_cons.symm

theorem eq_expand (h : Simultaneous rule f) : f = expand rule := by
  funext passes word
  induction passes generalizing word with
  | zero => apply h.zero
  | succ passes ih =>
    rw [Nat.add_comm, h.add, h.pass_eq, ih]
    rw [expand_add, expand_one]

end Simultaneous

/--
Expansion rewrites all symbols at once. Its parts and its passes are independent of each other, it does nothing
in no passes, and each further pass reads only the sequence before it. A rule that has an image for every symbol
cannot fail, and gathering the images one by one does the same. Nothing else obeys these laws.
-/
theorem expand_simultaneous (rule : σ → List σ) :
    (∀ passes v w, expand rule passes (v ++ w) = expand rule passes v ++ expand rule passes w) ∧
    (∀ m n word, expand rule (m + n) word = expand rule n (expand rule m word)) ∧
    (∀ word, expand rule 0 word = word) ∧
    (∀ passes word, expand rule (passes + 1) word = rewrite rule (expand rule passes word)) ∧
    (∀ passes word, expand? (fun s => some (rule s)) passes word = some (expand rule passes word)) ∧
    (∀ passes word, gatherAll rule passes word = expand rule passes word) ∧
    ∀ f, Simultaneous rule f ↔ f = expand rule := by
  refine ⟨expand_append rule, expand_add rule, expand_zero rule, expand_succ rule, ?_,
    gatherAll_eq_expand rule, ?_⟩
  . intro passes word
    apply expand?_eq_some (P := fun _ => True) (fun _ _ => rfl) (fun _ _ _ _ => trivial)
    exact fun _ _ => trivial
  . intro f
    constructor
    . exact Simultaneous.eq_expand
    . rintro rfl
      exact simultaneous_expand rule

end TurtleCurves
