import TurtleCurves.Grammar.Basic
import TurtleCurves.Proofs.Grammar.Expansion

/-!
This module contains lemmas about grammars: which symbols have an image, that the letters of a closed
grammar are never left, and what exactly keeps a grammar from being closed.
-/

namespace TurtleCurves
namespace Grammar

variable {g : Grammar}

theorem rule?_of_mem {s : Symbol} (h : s ∈ g.alphabet) : g.rule? s = some (g.image s) := by
  unfold rule? table
  apply List.lookup_graph
  exact h

theorem image_within (hg : g.Closed) :
    ∀ s, s ∈ g.alphabet → ∀ t ∈ g.image s, t ∈ g.alphabet := by
  intro s hs t ht
  unfold image at ht
  cases hp : g.productions.get? s with
  | none =>
    simp only [hp, Option.getD_none, List.mem_singleton] at ht
    exact ht ▸ hs
  | some produced =>
    simp only [hp, Option.getD_some] at ht
    have hmem := Entries.mem_of_get?_eq_some hp
    exact (hg.1 _ hmem).2 t ht

theorem expand?_eq_expand (hg : g.Closed) (passes : Nat) :
    g.expand? passes = some (expand g.image passes g.seed) := by
  apply expand?_eq_some _ (image_within hg) passes hg.2
  intro s hs
  exact rule?_of_mem hs

theorem mem_alphabet_of_mem_expand (hg : g.Closed) (passes : Nat) :
    ∀ s ∈ expand g.image passes g.seed, s ∈ g.alphabet := by
  apply forall_mem_expand (image_within hg) passes hg.2

def Within (g : Grammar) (production : Symbol × List Symbol) : Prop :=
  production.1 ∈ g.alphabet ∧ ∀ s ∈ production.2, s ∈ g.alphabet

/--
What is wrong first. The productions come in their order, with the key before its image, and the
starting sequence comes last.
-/
inductive FirstFault (g : Grammar) : GrammarFault → Prop
  | key {before after : List (Symbol × List Symbol)} {key : Symbol} {image : List Symbol} :
    g.productions = before ++ (key, image) :: after →
    (∀ p ∈ before, g.Within p) →
    key ∉ g.alphabet →
    FirstFault g (.strayKey key g.alphabetName)
  | image {before after : List (Symbol × List Symbol)} {key : Symbol} {image : List Symbol} :
    g.productions = before ++ (key, image) :: after →
    (∀ p ∈ before, g.Within p) →
    key ∈ g.alphabet →
    (∃ s ∈ image, s ∉ g.alphabet) →
    FirstFault g (.strayImage key g.alphabetName (image.filter (· ∉ g.alphabet)))
  | seed :
    (∀ p ∈ g.productions, g.Within p) →
    (∃ s ∈ g.seed, s ∉ g.alphabet) →
    FirstFault g (.straySeed g.alphabetName (g.seed.filter (· ∉ g.alphabet)))

theorem stray_eq_filter (g : Grammar) (word : List Symbol) :
    g.stray word = word.filter (· ∉ g.alphabet) := by
  unfold stray
  congr 1
  funext s
  simp

theorem stray_ne_nil_iff (g : Grammar) (word : List Symbol) :
    g.stray word ≠ [] ↔ ∃ s ∈ word, s ∉ g.alphabet := by
  rw [ne_eq, stray_eq_nil_iff]
  push Not
  rfl

theorem productionFault?_of_key {key : Symbol} (h : key ∉ g.alphabet) (image : List Symbol) :
    g.productionFault? (key, image) = some (.strayKey key g.alphabetName) := by
  simp [productionFault?, h]

theorem productionFault?_of_image {key : Symbol} (h : key ∈ g.alphabet) {image : List Symbol}
    (himage : ∃ s ∈ image, s ∉ g.alphabet) :
    g.productionFault? (key, image)
      =
    some (.strayImage key g.alphabetName (image.filter (· ∉ g.alphabet))) := by
  rw [← stray_ne_nil_iff] at himage
  rw [← stray_eq_filter]
  cases hstray : g.stray image with
  | nil => exact absurd hstray himage
  | cons s rest => simp [productionFault?, h, hstray]

theorem seedFault?_of_seed (h : ∃ s ∈ g.seed, s ∉ g.alphabet) :
    g.seedFault? = some (.straySeed g.alphabetName (g.seed.filter (· ∉ g.alphabet))) := by
  rw [← stray_ne_nil_iff] at h
  rw [← stray_eq_filter]
  cases hstray : g.stray g.seed with
  | nil => exact absurd hstray h
  | cons s rest => simp [seedFault?, hstray]

theorem fault?_of_production {before after : List (Symbol × List Symbol)}
    {production : Symbol × List Symbol} {fault : GrammarFault}
    (hproductions : g.productions = before ++ production :: after)
    (hbefore : ∀ p ∈ before, g.Within p) (h : g.productionFault? production = some fault) :
    g.fault? = some fault := by
  have hfirst : g.productions.findSome? g.productionFault? = some fault := by
    rw [List.findSome?_eq_some_iff]
    refine ⟨before, production, after, hproductions, h, ?_⟩
    intro p hp
    rw [productionFault?_eq_none_iff]
    exact hbefore p hp
  unfold fault?
  rw [hfirst]
  rfl

theorem fault?_of_firstFault {fault : GrammarFault} (h : g.FirstFault fault) :
    g.fault? = some fault := by
  cases h with
  | key hproductions hbefore hkey =>
    apply fault?_of_production hproductions hbefore
    apply productionFault?_of_key hkey
  | image hproductions hbefore hkey himage =>
    apply fault?_of_production hproductions hbefore
    apply productionFault?_of_image hkey himage
  | seed hproductions hseed =>
    have hnone : g.productions.findSome? g.productionFault? = none := by
      rw [List.findSome?_eq_none_iff]
      intro p hp
      rw [productionFault?_eq_none_iff]
      exact hproductions p hp
    unfold fault?
    rw [hnone]
    rw [seedFault?_of_seed hseed]
    rfl

theorem firstFault_of_productionFault? {before after : List (Symbol × List Symbol)}
    {production : Symbol × List Symbol} {fault : GrammarFault}
    (hproductions : g.productions = before ++ production :: after)
    (hbefore : ∀ p ∈ before, g.Within p) (h : g.productionFault? production = some fault) :
    g.FirstFault fault := by
  obtain ⟨key, image⟩ := production
  by_cases hkey : key ∈ g.alphabet
  . by_cases himage : ∃ s ∈ image, s ∉ g.alphabet
    . rw [productionFault?_of_image hkey himage] at h
      cases h
      exact .image hproductions hbefore hkey himage
    . push Not at himage
      rw [(productionFault?_eq_none_iff g (key, image)).2 ⟨hkey, himage⟩] at h
      cases h
  . rw [productionFault?_of_key hkey] at h
    cases h
    exact .key hproductions hbefore hkey

theorem firstFault_of_fault? {fault : GrammarFault} (h : g.fault? = some fault) :
    g.FirstFault fault := by
  unfold fault? at h
  cases hfirst : g.productions.findSome? g.productionFault? with
  | some first =>
    rw [hfirst] at h
    cases h
    rw [List.findSome?_eq_some_iff] at hfirst
    obtain ⟨before, production, after, hproductions, hproduction, hbefore⟩ := hfirst
    apply firstFault_of_productionFault? hproductions _ hproduction
    intro p hp
    exact (productionFault?_eq_none_iff g p).1 (hbefore p hp)
  | none =>
    rw [hfirst] at h
    rw [List.findSome?_eq_none_iff] at hfirst
    have hproductions : ∀ p ∈ g.productions, g.Within p := by
      intro p hp
      exact (productionFault?_eq_none_iff g p).1 (hfirst p hp)
    by_cases hseed : ∃ s ∈ g.seed, s ∉ g.alphabet
    . rw [seedFault?_of_seed hseed] at h
      cases h
      exact .seed hproductions hseed
    . push Not at hseed
      rw [(seedFault?_eq_none_iff g).2 hseed] at h
      cases h

theorem fault?_eq_some_iff {fault : GrammarFault} : g.fault? = some fault ↔ g.FirstFault fault := by
  constructor
  . exact firstFault_of_fault?
  . exact fault?_of_firstFault

end Grammar
end TurtleCurves
