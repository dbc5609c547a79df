import Mathlib.Algebra.BigOperators.Group.List.Basic
import TurtleCurves.Curve.Pattern
import TurtleCurves.Proofs.Curve.Construction

/-!
This module contains the sequences that the curves of a pattern are drawn from, and the course of such a
sequence: by how many degrees it turns, and which headings its steps are made at. Degrees are whole
numbers, so nothing is rounded. A letter may branch into steps at fixed offsets from its own heading,
which every pass then does to every step.
-/

namespace TurtleCurves
namespace Pattern

variable {p : Pattern}

/-- A pattern whose turtle can be placed whenever its steps have a length. -/
structure Placeable (p : Pattern) : Prop where
  closed : p.grammar.Closed
  letters : ∀ s ∈ p.grammar.alphabet, p.motion? s ≠ none
  heading : ∀ n fault, p.heading n = .error fault → p.step n = .error fault

def word (p : Pattern) (iterations : Nat) : Result (List Symbol) :=
  match p.definition.curve (.int iterations) with
  | .error fault => .error fault
  | .ok c => c.expand c.depth

def grown (p : Pattern) (passes : Nat) (s : Symbol) : List Symbol :=
  expand p.grammar.image passes [s]

theorem curve_eq (h : p.grammar.Closed) (iterations : Nat) :
    p.definition.curve (.int iterations) = .ok ⟨p.definition, iterations, h⟩ := by
  have hobstacle : p.definition.obstacle? iterations = none := by
    rw [Definition.obstacle?_eq_none_iff]
    exact ⟨rfl, h⟩
  obtain ⟨_, hcurve⟩ := Definition.curve_of_no_obstacle hobstacle
  exact hcurve

theorem word_eq (h : p.grammar.Closed) (iterations : Nat) :
    p.word iterations = .ok (expand p.grammar.image iterations p.grammar.seed) := by
  have hexpand := Curve.expand_int ⟨p.definition, iterations, h⟩ iterations
  unfold word
  rw [curve_eq h]
  exact hexpand

theorem expand_eq_grown (p : Pattern) (passes : Nat) (sequence : List Symbol) :
    expand p.grammar.image passes sequence = sequence.flatMap (p.grown passes) := by
  apply expand_eq_flatMap

@[simp]
theorem grown_zero (p : Pattern) (s : Symbol) : p.grown 0 s = [s] := rfl

theorem grown_succ (p : Pattern) (passes : Nat) (s : Symbol) :
    p.grown (passes + 1) s = (p.grammar.image s).flatMap (p.grown passes) := by
  unfold grown
  rw [expand_succ_singleton]
  apply expand_eq_grown

theorem grown_of_fixed {s : Symbol} (h : p.grammar.image s = [s]) (passes : Nat) :
    p.grown passes s = [s] := by
  apply expand_of_fixed h

def turnOf (p : Pattern) (s : Symbol) : Int :=
  match p.motion? s with
  | some (.turn degrees) => degrees
  | _ => 0

def netTurn (p : Pattern) (word : List Symbol) : Int :=
  (word.map p.turnOf).sum

def headings (p : Pattern) : Int → List Symbol → List Int
  | _, [] => []
  | heading, s :: rest =>
    (if p.motion? s = some .forward then [heading] else []) ++ p.headings (heading + p.turnOf s) rest

@[simp]
theorem netTurn_nil (p : Pattern) : p.netTurn [] = 0 := rfl

@[simp]
theorem netTurn_cons (p : Pattern) (s : Symbol) (word : List Symbol) :
    p.netTurn (s :: word) = p.turnOf s + p.netTurn word := by
  simp [netTurn]

@[simp]
theorem netTurn_append (p : Pattern) (v w : List Symbol) :
    p.netTurn (v ++ w) = p.netTurn v + p.netTurn w := by
  simp [netTurn]

@[simp]
theorem headings_nil (p : Pattern) (heading : Int) : p.headings heading [] = [] := rfl

section Cons

variable {s : Symbol} {degrees : Int}

theorem netTurn_of_forward (h : p.motion? s = some .forward) (rest : List Symbol) :
    p.netTurn (s :: rest) = p.netTurn rest := by
  simp [turnOf, h]

theorem netTurn_of_turn (h : p.motion? s = some (.turn degrees)) (rest : List Symbol) :
    p.netTurn (s :: rest) = degrees + p.netTurn rest := by
  simp [turnOf, h]

theorem headings_of_forward (h : p.motion? s = some .forward) (heading : Int) (rest : List Symbol) :
    p.headings heading (s :: rest) = heading :: p.headings heading rest := by
  simp [headings, turnOf, h]

theorem headings_of_turn (h : p.motion? s = some (.turn degrees)) (heading : Int)
    (rest : List Symbol) :
    p.headings heading (s :: rest) = p.headings (heading + degrees) rest := by
  simp [headings, turnOf, h]

end Cons

theorem headings_append (p : Pattern) (heading : Int) (v w : List Symbol) :
    p.headings heading (v ++ w)
      =
    p.headings heading v ++ p.headings (heading + p.netTurn v) w := by
  induction v generalizing heading with
  | nil => simp
  | cons s rest ih => simp [headings, ih, Int.add_assoc]

theorem headings_add (p : Pattern) (heading offset : Int) (word : List Symbol) :
    p.headings (heading + offset) word = (p.headings heading word).map (· + offset) := by
  induction word generalizing heading with
  | nil => rfl
  | cons s rest ih =>
    have hturn : heading + offset + p.turnOf s = heading + p.turnOf s + offset := by omega
    simp only [headings, List.map_append]
    rw [hturn]
    rw [ih]
    split <;> rfl

theorem headings_eq_map (p : Pattern) (heading : Int) (word : List Symbol) :
    p.headings heading word = (p.headings 0 word).map (· + heading) := by
  rw [← headings_add]
  rw [Int.zero_add]

section Branches

variable {base : Symbol} {offsets : List Int}

/-- A letter that draws a step and grows into steps at fixed offsets from the heading of the first. -/
structure Branches (p : Pattern) (base : Symbol) (offsets : List Int) : Prop where
  motion?_base : p.motion? base = some .forward
  headings_grown : ∀ n heading,
    p.headings heading (p.grown (n + 1) base)
      =
    offsets.flatMap fun offset => p.headings (heading + offset) (p.grown n base)

namespace Branches

variable (h : p.Branches base offsets)
include h

-- Read from the other end: it is the last pass that replaces single steps.
theorem headings_succ (n : Nat) (heading : Int) :
    p.headings heading (p.grown (n + 1) base)
      =
    (p.headings heading (p.grown n base)).flatMap fun step => offsets.map (step + ·) := by
  induction n generalizing heading with
  | zero =>
    rw [h.headings_grown]
    simp only [grown_zero, headings_of_forward h.motion?_base, headings_nil, List.flatMap_singleton]
    rw [List.map_eq_flatMap]
  | succ n ih =>
    calc
      p.headings heading (p.grown (n + 2) base)
        = offsets.flatMap fun offset => p.headings (heading + offset) (p.grown (n + 1) base) :=
          h.headings_grown (n + 1) heading
      _ = (offsets.flatMap fun offset => p.headings (heading + offset) (p.grown n base)).flatMap
            fun step => offsets.map (step + ·) := by
          simp only [ih, List.flatMap_assoc]
      _ = (p.headings heading (p.grown (n + 1) base)).flatMap fun step => offsets.map (step + ·) := by
          rw [h.headings_grown]

theorem length_headings (n : Nat) (heading : Int) :
    (p.headings heading (p.grown n base)).length = offsets.length ^ n := by
  induction n generalizing heading with
  | zero => simp [headings_of_forward h.motion?_base]
  | succ n ih =>
    rw [h.headings_succ]
    simp [ih, pow_succ]

end Branches

end Branches

theorem motion?_ne_none_of_word {sequence : List Symbol} {iterations : Nat}
    (hclosed : p.grammar.Closed) (hletters : ∀ s ∈ p.grammar.alphabet, p.motion? s ≠ none)
    (hword : p.word iterations = .ok sequence) :
    ∀ s ∈ sequence, p.motion? s ≠ none := by
  rw [word_eq hclosed] at hword
  cases hword
  intro s hs
  apply hletters
  exact Grammar.mem_alphabet_of_mem_expand hclosed iterations s hs

end Pattern
end TurtleCurves
