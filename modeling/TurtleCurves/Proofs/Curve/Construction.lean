import TurtleCurves.Curve.Dragon
import TurtleCurves.Proofs.Curve.Basic

/-!
This module contains what it takes to make a curve of a family, what is said when it cannot be made, and
what every curve that is made can rely on.
-/

namespace TurtleCurves
namespace Definition

variable {d : Definition} {value : Value}

/--
Which requirement is the first one that is violated. The count comes before the family's own limits,
and these come before the grammar.
-/
inductive FirstViolated (d : Definition) : Value → Refusal → Prop
  | negative {n : Int} :
    n < 0 → FirstViolated d (.int n) (.count (.negative n))
  | notInteger {value : Value} :
    (∀ n, value ≠ .int n) → FirstViolated d value (.count (.notInteger value))
  | limits {count : Nat} {refusal : Refusal} :
    d.refusal? count = some refusal → FirstViolated d (.int count) refusal
  | grammar {count : Nat} {fault : GrammarFault} :
    d.refusal? count = none → d.grammar.FirstFault fault →
    FirstViolated d (.int count) (.grammar fault)

theorem obstacle?_eq_none_iff {count : Nat} :
    d.obstacle? count = none ↔ d.refusal? count = none ∧ d.grammar.Closed := by
  unfold obstacle?
  rw [Option.or_eq_none_iff]
  rw [Option.map_eq_none_iff]
  rw [Grammar.fault?_eq_none_iff]

theorem obstacle?_eq_some_iff {count : Nat} {refusal : Refusal} :
    d.obstacle? count = some refusal ↔ d.refusal? count = some refusal ∨
      d.refusal? count = none ∧ ∃ fault, d.grammar.FirstFault fault ∧ .grammar fault = refusal := by
  unfold obstacle?
  rw [Option.or_eq_some_iff]
  rw [Option.map_eq_some_iff]
  simp only [Grammar.fault?_eq_some_iff]

theorem curve_of_not_count {fault : Fault} (h : Count.forCurve value = .error fault) :
    d.curve value = .error fault := by
  unfold curve
  rw [h]
  rfl

theorem curve_of_obstacle {count : Nat} {refusal : Refusal} (h : d.obstacle? count = some refusal) :
    d.curve (.int count) = .error (.refused refusal) := by
  unfold curve
  rw [Count.forCurve_eq_ok_iff.2 rfl]
  simp only [bind, Except.bind]
  split
  . next other hother =>
    rw [h] at hother
    cases hother
    rfl
  . next hnone =>
    rw [h] at hnone
    cases hnone

theorem curve_of_no_obstacle {count : Nat} (h : d.obstacle? count = none) :
    ∃ closed, d.curve (.int count) = .ok ⟨d, count, closed⟩ := by
  refine ⟨(obstacle?_eq_none_iff.1 h).2, ?_⟩
  unfold curve
  rw [Count.forCurve_eq_ok_iff.2 rfl]
  simp only [bind, Except.bind]
  split
  . next refusal hsome =>
    rw [h] at hsome
    cases hsome
  . rfl

theorem firstViolated_of_curve {fault : Fault} (h : d.curve value = .error fault) :
    ∃ refusal, fault = .refused refusal ∧ d.FirstViolated value refusal := by
  cases hcount : Count.forCurve value with
  | error cause =>
    rw [curve_of_not_count hcount] at h
    cases h
    rw [Count.forCurve_eq_error_iff] at hcount
    obtain ⟨cause, hcause, rfl⟩ := hcount
    refine ⟨.count cause, rfl, ?_⟩
    rw [Count.ofValue_eq_error_iff] at hcause
    obtain ⟨n, hn, rfl, rfl⟩ | ⟨hvalue, rfl⟩ := hcause
    . exact .negative hn
    . exact .notInteger hvalue
  | ok count =>
    rw [Count.forCurve_eq_ok_iff] at hcount
    subst hcount
    cases hobstacle : d.obstacle? count with
    | none =>
      obtain ⟨closed, hcurve⟩ := curve_of_no_obstacle hobstacle
      rw [hcurve] at h
      cases h
    | some refusal =>
      rw [curve_of_obstacle hobstacle] at h
      cases h
      refine ⟨refusal, rfl, ?_⟩
      rw [obstacle?_eq_some_iff] at hobstacle
      obtain hlimits | ⟨hlimits, fault, hfault, rfl⟩ := hobstacle
      . exact .limits hlimits
      . exact .grammar hlimits hfault

theorem curve_eq_ok {c : Curve} (h : d.curve value = .ok c) :
    c.definition = d ∧ value = .int c.iterations ∧ d.obstacle? c.iterations = none := by
  cases hcount : Count.forCurve value with
  | error fault =>
    rw [curve_of_not_count hcount] at h
    cases h
  | ok count =>
    rw [Count.forCurve_eq_ok_iff] at hcount
    subst hcount
    cases hobstacle : d.obstacle? count with
    | none =>
      obtain ⟨closed, hcurve⟩ := curve_of_no_obstacle hobstacle
      rw [hcurve] at h
      cases h
      exact ⟨rfl, rfl, hobstacle⟩
    | some refusal =>
      rw [curve_of_obstacle hobstacle] at h
      cases h

end Definition
end TurtleCurves
