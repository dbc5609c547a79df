import TurtleCurves.Entries
import TurtleCurves.Fault
import TurtleCurves.Grammar.Expansion

/-!
This module contains grammars: an alphabet of distinct letters, the sequence from which an expansion
starts, and productions for some of the letters. The other letters stand for themselves. A grammar is
closed if the productions and the starting sequence stay within the alphabet.
-/

namespace TurtleCurves

structure Grammar where
  alphabetName : String
  alphabet : List Symbol
  seed : List Symbol
  productions : Entries Symbol (List Symbol)
  distinct : alphabet.Nodup
deriving Repr

namespace Grammar

def stray (g : Grammar) (word : List Symbol) : List Symbol :=
  word.filter fun s => !g.alphabet.contains s

/-- What is wrong with one production: its key is looked at before its image. -/
def productionFault? (g : Grammar) (production : Symbol × List Symbol) : Option GrammarFault :=
  let (key, image) := production
  if !g.alphabet.contains key then some (.strayKey key g.alphabetName)
  else
    match g.stray image with
    | [] => none
    | stray => some (.strayImage key g.alphabetName stray)

def seedFault? (g : Grammar) : Option GrammarFault :=
  match g.stray g.seed with
  | [] => none
  | stray => some (.straySeed g.alphabetName stray)

def fault? (g : Grammar) : Option GrammarFault :=
  (g.productions.findSome? g.productionFault?).or g.seedFault?

def Closed (g : Grammar) : Prop :=
  (∀ p ∈ g.productions, p.1 ∈ g.alphabet ∧ ∀ s ∈ p.2, s ∈ g.alphabet) ∧ ∀ s ∈ g.seed, s ∈ g.alphabet

/-- The image of a symbol: that of its production, or itself. -/
def image (g : Grammar) (s : Symbol) : List Symbol :=
  (g.productions.get? s).getD [s]

def table (g : Grammar) : List (Symbol × List Symbol) :=
  g.alphabet.map fun s => (s, g.image s)

/-- The image of a letter; other symbols have none. -/
def rule? (g : Grammar) (s : Symbol) : Option (List Symbol) :=
  g.table.lookup s

def expand? (g : Grammar) (passes : Nat) : Option (List Symbol) :=
  let table := g.table
  TurtleCurves.expand? (fun s => table.lookup s) passes g.seed

def branchingFactor? (g : Grammar) : Option Nat :=
  (g.table.map fun (_, image) => image.length).max?

theorem stray_eq_nil_iff (g : Grammar) (word : List Symbol) :
    g.stray word = [] ↔ ∀ s ∈ word, s ∈ g.alphabet := by
  simp [stray, List.filter_eq_nil_iff]

theorem productionFault?_eq_none_iff (g : Grammar) (p : Symbol × List Symbol) :
    g.productionFault? p = none ↔ p.1 ∈ g.alphabet ∧ ∀ s ∈ p.2, s ∈ g.alphabet := by
  obtain ⟨key, image⟩ := p
  rw [← stray_eq_nil_iff]
  by_cases h : key ∈ g.alphabet
  . cases hs : g.stray image <;> simp [productionFault?, h, hs]
  . simp [productionFault?, h]

theorem seedFault?_eq_none_iff (g : Grammar) :
    g.seedFault? = none ↔ ∀ s ∈ g.seed, s ∈ g.alphabet := by
  rw [← stray_eq_nil_iff]
  cases h : g.stray g.seed <;> simp [seedFault?, h]

theorem fault?_eq_none_iff (g : Grammar) : g.fault? = none ↔ g.Closed := by
  simp only [fault?, Option.or_eq_none_iff, List.findSome?_eq_none_iff, Closed,
    productionFault?_eq_none_iff, seedFault?_eq_none_iff]

end Grammar
end TurtleCurves
