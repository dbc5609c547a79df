import TurtleCurves.Fault

/-!
This module contains the check of iteration counts: a count is a whole number that is not negative, and
the truth values are not counts although they stand for numbers elsewhere.
-/

namespace TurtleCurves
namespace Count

def ofValue : Value → Except CountFault Nat
  | .int n => if n < 0 then .error (.negative n) else .ok n.toNat
  | value => .error (.notInteger value)

theorem ofValue_eq_ok_iff {value : Value} {n : Nat} :
    ofValue value = .ok n ↔ value = .int n := by
  cases value with
  | int m =>
    by_cases h : m < 0
    . simp only [ofValue, h, if_true, reduceCtorEq, Value.int.injEq, false_iff]
      omega
    . simp only [ofValue, h, if_false, Except.ok.injEq, Value.int.injEq]
      omega
  | _ => simp [ofValue]

theorem ofValue_eq_error_iff {value : Value} {cause : CountFault} :
    ofValue value = .error cause ↔
      (∃ n : Int, n < 0 ∧ value = .int n ∧ cause = .negative n) ∨
        (∀ n, value ≠ .int n) ∧ cause = .notInteger value := by
  cases value with
  | int m =>
    constructor
    . intro h
      simp only [ofValue] at h
      split at h
      . next hm =>
        cases h
        exact .inl ⟨m, hm, rfl, rfl⟩
      . cases h
    . rintro (⟨n, hn, hvalue, rfl⟩ | ⟨hvalue, _⟩)
      . cases hvalue
        simp [ofValue, hn]
      . exact absurd rfl (hvalue m)
  | _ => simp [ofValue, eq_comm]

def forCurve (value : Value) : Result Nat :=
  (ofValue value).mapError fun fault => .refused (.count fault)

def forCall (value : Value) : Result Nat :=
  (ofValue value).mapError fun fault => .violated (.count fault)

theorem mapError_eq_ok_iff {α ε δ : Type} {result : Except ε α} {f : ε → δ} {a : α} :
    result.mapError f = .ok a ↔ result = .ok a := by
  cases result with
  | ok b =>
    change Except.ok b = Except.ok a ↔ _
    simp
  | error e =>
    change Except.error (f e) = Except.ok a ↔ _
    simp

theorem mapError_eq_error_iff {α ε δ : Type} {result : Except ε α} {f : ε → δ} {fault : δ} :
    result.mapError f = .error fault ↔ ∃ cause, result = .error cause ∧ f cause = fault := by
  cases result with
  | ok b =>
    change Except.ok b = Except.error fault ↔ _
    simp
  | error e =>
    change Except.error (f e) = Except.error fault ↔ _
    simp

theorem forCurve_eq_ok_iff {value : Value} {n : Nat} : forCurve value = .ok n ↔ value = .int n := by
  rw [← ofValue_eq_ok_iff]
  apply mapError_eq_ok_iff

theorem forCall_eq_ok_iff {value : Value} {n : Nat} : forCall value = .ok n ↔ value = .int n := by
  rw [← ofValue_eq_ok_iff]
  apply mapError_eq_ok_iff

theorem forCurve_eq_error_iff {value : Value} {fault : Fault} :
    forCurve value = .error fault ↔
      ∃ cause, ofValue value = .error cause ∧ .refused (.count cause) = fault := by
  apply mapError_eq_error_iff

end Count
end TurtleCurves
