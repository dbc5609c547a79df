import TurtleCurves.Number

/-!
This module contains lemmas about the comparison of numbers by value. It is the same read from either side,
and of two numbers that are defined one is at most the other.
-/

namespace TurtleCurves

theorem Binary.compare_swap (a b : Binary) : (a.compare b).swap = b.compare a := by
  unfold compare
  rw [Int.min_comm b.exponent]
  exact Std.OrientedOrd.eq_swap.symm

namespace Number

variable {a b : Number}

theorem compare?_swap (a b : Number) : (a.compare? b).map Ordering.swap = b.compare? a := by
  unfold compare?
  cases a.view with
  | undefined => cases b.view <;> rfl
  | infinite negative => cases b.view with
    | undefined => rfl
    | infinite other => cases negative <;> cases other <;> rfl
    | finite y => cases negative <;> rfl
  | finite x => cases b.view with
    | undefined => rfl
    | infinite other => cases other <;> rfl
    | finite y => exact congrArg some (Binary.compare_swap x y)

theorem exists_compare? (ha : a.view ≠ .undefined) (hb : b.view ≠ .undefined) :
    ∃ order, a.compare? b = some order := by
  unfold compare?
  cases hviewA : a.view with
  | undefined => exact absurd hviewA ha
  | infinite negative => cases hviewB : b.view with
    | undefined => exact absurd hviewB hb
    | infinite other => cases negative <;> cases other <;> exact ⟨_, rfl⟩
    | finite y => exact ⟨_, rfl⟩
  | finite x => cases hviewB : b.view with
    | undefined => exact absurd hviewB hb
    | infinite other => exact ⟨_, rfl⟩
    | finite y => exact ⟨_, rfl⟩

theorem le_of_not_lt (ha : a.view ≠ .undefined) (hb : b.view ≠ .undefined) (h : ¬a.lt b) : b.le a := by
  obtain ⟨order, horder⟩ := exists_compare? ha hb
  unfold lt at h
  unfold le
  rw [← compare?_swap a b]
  rw [horder] at h ⊢
  cases order with
  | lt => exact absurd rfl h
  | eq => rfl
  | gt => rfl

end Number
end TurtleCurves
