/-!
This module contains the expansion of sequences by simultaneous rewriting: a pass replaces every symbol
of a sequence by its image, and each pass reads only what the one before it produced. A rule may be
total, or have no image for some symbols, in which case a pass that meets one of them fails, unless such
symbols stand for themselves.
-/

namespace TurtleCurves

variable {σ : Type}

def rewrite (rule : σ → List σ) (word : List σ) : List σ :=
  word.flatMap rule

def expand (rule : σ → List σ) : Nat → List σ → List σ
  | 0, word => word
  | passes + 1, word => expand rule passes (rewrite rule word)

def rewrite? (rule : σ → Option (List σ)) (word : List σ) : Option (List σ) :=
  (word.mapM rule).map List.flatten

def expand? (rule : σ → Option (List σ)) : Nat → List σ → Option (List σ)
  | 0, word => some word
  | passes + 1, word => (rewrite? rule word).bind (expand? rule passes)

/-- The total rule under which symbols without an image stand for themselves. -/
def orSelf (rule : σ → Option (List σ)) (s : σ) : List σ :=
  (rule s).getD [s]

@[simp]
theorem expand_zero (rule : σ → List σ) (word : List σ) : expand rule 0 word = word := rfl

@[simp]
theorem expand?_zero (rule : σ → Option (List σ)) (word : List σ) :
    expand? rule 0 word = some word := rfl

theorem orSelf_of_none {rule : σ → Option (List σ)} {s : σ} (h : rule s = none) :
    orSelf rule s = [s] := by
  rw [orSelf, h, Option.getD_none]

theorem orSelf_of_some {rule : σ → Option (List σ)} {s : σ} {image : List σ} (h : rule s = some image) :
    orSelf rule s = image := by
  rw [orSelf, h, Option.getD_some]

theorem rewrite_append (rule : σ → List σ) (v w : List σ) :
    rewrite rule (v ++ w) = rewrite rule v ++ rewrite rule w := by
  simp [rewrite]

end TurtleCurves
