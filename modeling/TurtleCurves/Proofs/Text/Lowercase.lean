import Mathlib.Data.Char
import TurtleCurves.Text.Lowercase

/-!
This module contains the law of the lower case: a text in lower case is its own lower case. The forms of
the letters in the table are no letters of the table themselves, so nothing is left to be changed.
-/

namespace TurtleCurves
namespace Text

namespace CaseRun

variable {run other : CaseRun} {n : Nat}

def Holds (run : CaseRun) (n : Nat) : Prop :=
  run.first ≤ n ∧ n ≤ run.last ∧ (n - run.first) % run.step = 0

instance : Decidable (run.Holds n) :=
  inferInstanceAs (Decidable (_ ∧ _ ∧ _))

def form (run : CaseRun) (n : Nat) : Nat :=
  (n + run.shift).toNat

/--
Whether no form of a run is in another one. It may lie outside of the other run, or both may take every
second code point only and each those between the other's.
-/
def isApart (run other : CaseRun) : Bool :=
  Nat.blt (run.form run.last) other.first || Nat.blt other.last (run.form run.first) ||
    (Nat.beq run.first run.last || Nat.beq run.step 2) && Nat.beq other.step 2 &&
      run.form run.first % 2 != other.first % 2

theorem not_holds_form (happart : run.isApart other = true) (hshift : 0 ≤ run.first + run.shift)
    (h : run.Holds n) :
    ¬other.Holds (run.form n) := by
  obtain ⟨hfirst, hlast, hstep⟩ := h
  rintro ⟨hfirst', hlast', hstep'⟩
  simp only [isApart, form, Bool.or_eq_true, Bool.and_eq_true, Nat.blt_eq, Nat.beq_eq, bne_iff_ne]
    at happart hfirst' hlast' hstep'
  obtain (hbelow | habove) | ⟨⟨hsparse, hother⟩, hparity⟩ := happart
  . omega
  . omega
  . -- The form is as far from the first form as the letter is from the first letter, by an even number.
    have heven : (n - run.first) % 2 = 0 := by
      obtain hsingle | hrun := hsparse
      . omega
      . rwa [hrun] at hstep
    rw [hother] at hstep'
    omega

end CaseRun

-- The table is gone through in pairs of runs, since it has far fewer runs than letters.
set_option maxRecDepth 10000 in
theorem all_isApart : (caseRuns.all fun run => caseRuns.all run.isApart) = true := by
  decide +kernel

set_option maxRecDepth 10000 in
theorem shift_forms : ∀ run ∈ caseRuns, 0 ≤ run.first + run.shift ∧
    (run.form run.last < 0x130 ∨ 0x130 < run.form run.first) ∧
    (run.form run.last < 0xd800 ∨ 0xdfff < run.form run.first ∧ run.form run.last < 0x110000) := by
  decide +kernel

structure Settled (c : Char) : Prop where
  undotted : c ≠ Char.ofNat 0x130
  unheld : ∀ run ∈ caseRuns, ¬run.Holds c.toNat

variable {c : Char} {cs before : List Char}

theorem toNat_ofNat {n : Nat} (h : n < 0xd800 ∨ 0xdfff < n ∧ n < 0x110000) :
    (Char.ofNat n).toNat = n := by
  have hvalid : n.isValidChar := h
  rw [Char.ofNat, dif_pos hvalid]
  rfl

theorem lowerChar_of_unheld (h : ∀ run ∈ caseRuns, ¬run.Holds c.toNat) : lowerChar c = c := by
  have hnone : (caseRuns.find? fun run =>
      run.first ≤ c.toNat && c.toNat ≤ run.last && (c.toNat - run.first) % run.step == 0) = none := by
    rw [List.find?_eq_none]
    intro run hrun hholds
    simp only [Bool.and_eq_true, decide_eq_true_eq, beq_iff_eq, and_assoc] at hholds
    exact h run hrun hholds
  unfold lowerChar
  rw [hnone]

theorem lowerChar_of_held (h : ¬∀ run ∈ caseRuns, ¬run.Holds c.toNat) :
    ∃ run ∈ caseRuns, run.Holds c.toNat ∧ lowerChar c = Char.ofNat (run.form c.toNat) := by
  unfold lowerChar
  split
  . next run hrun =>
    have hholds := List.find?_some hrun
    simp only [Bool.and_eq_true, decide_eq_true_eq, beq_iff_eq, and_assoc] at hholds
    exact ⟨run, List.mem_of_find?_eq_some hrun, hholds, rfl⟩
  . next hnone =>
    refine absurd ?_ h
    intro run hrun hholds
    rw [List.find?_eq_none] at hnone
    apply hnone run hrun
    simp only [Bool.and_eq_true, decide_eq_true_eq, beq_iff_eq, and_assoc]
    exact hholds

theorem settled_lowerChar (h : c ≠ Char.ofNat 0x130) : Settled (lowerChar c) := by
  by_cases hunheld : ∀ run ∈ caseRuns, ¬run.Holds c.toNat
  . rw [lowerChar_of_unheld hunheld]
    exact ⟨h, hunheld⟩
  . obtain ⟨run, hrun, hholds, hform⟩ := lowerChar_of_held hunheld
    obtain ⟨hshift, hundotted, hvalid⟩ := shift_forms run hrun
    have hcode : (Char.ofNat (run.form c.toNat)).toNat = run.form c.toNat := by
      apply toNat_ofNat
      simp only [CaseRun.Holds, CaseRun.form] at hholds hvalid ⊢
      omega
    rw [hform]
    constructor
    . intro hdotted
      rw [hdotted] at hcode
      simp only [CaseRun.Holds, CaseRun.form] at hholds hundotted hcode
      rw [toNat_ofNat (by decide)] at hcode
      omega
    . intro other hother
      rw [hcode]
      have hall := all_isApart
      rw [List.all_eq_true] at hall
      exact CaseRun.not_holds_form (List.all_eq_true.1 (hall run hrun) other hother) hshift hholds

def specialForms : List Nat := [0x3c2, 0x3c3, 0x69, 0x307]

theorem settled_special (h : c.toNat ∈ specialForms) : Settled c := by
  have hunheld : ∀ n ∈ specialForms, ∀ run ∈ caseRuns, ¬run.Holds n := by decide +kernel
  constructor
  . rintro rfl
    exact absurd h (by decide)
  . exact hunheld c.toNat h

theorem Settled.ne_capitalSigma (h : Settled c) : c ≠ capitalSigma := by
  have hheld : ∃ run ∈ caseRuns, run.Holds capitalSigma.toNat := by decide +kernel
  obtain ⟨run, hrun, hholds⟩ := hheld
  rintro rfl
  exact h.unheld run hrun hholds

theorem settled_of_mem_lowerChars (before cs : List Char) : ∀ c ∈ lowerChars before cs, Settled c := by
  induction cs generalizing before with
  | nil => simp [lowerChars]
  | cons first rest ih =>
    intro c hc
    simp only [lowerChars, List.mem_append] at hc
    obtain hform | hrest := hc
    . split at hform
      . rw [List.mem_singleton] at hform
        apply settled_special
        rw [hform]
        split <;> decide
      . split at hform
        . apply settled_special
          simp only [List.mem_cons, List.not_mem_nil, or_false] at hform
          obtain rfl | rfl := hform <;> decide
        . next hdotted =>
          rw [List.mem_singleton] at hform
          rw [hform]
          exact settled_lowerChar hdotted
    . exact ih (first :: before) c hrest

theorem lowerChars_of_settled (h : ∀ c ∈ cs, Settled c) (before : List Char) :
    lowerChars before cs = cs := by
  induction cs generalizing before with
  | nil => rfl
  | cons first rest ih =>
    rw [List.forall_mem_cons] at h
    rw [lowerChars, if_neg h.1.ne_capitalSigma, if_neg h.1.undotted, lowerChar_of_unheld h.1.unheld]
    rw [ih h.2]
    rfl

theorem lower_lower (text : String) : lower (lower text) = lower text := by
  unfold lower
  rw [String.toList_ofList]
  rw [lowerChars_of_settled (settled_of_mem_lowerChars [] text.toList)]

end Text
end TurtleCurves
