import TurtleCurves.Proofs.Binary.Doubling
import TurtleCurves.Proofs.Number

/-!
This module contains the amounts of numbers among the extended reals. The comparison of numbers is the order
of their amounts, if they have any; a number is doubled exactly, or beyond all bounds.
-/

namespace TurtleCurves

noncomputable def Binary.View.amount? : Binary.View → Option EReal
  | .undefined => none
  | .infinite negative => some (if negative then ⊥ else ⊤)
  | .finite b => some (b.value : Real)

namespace Number

variable {a b n : Number} {v w : EReal}

noncomputable def amount? (n : Number) : Option EReal :=
  n.view.amount?

theorem amount?_whole (n : Int) : (whole n).amount? = some ((n : Real) : EReal) := by
  change some (((Binary.ofInt n).value : Real) : EReal) = _
  rw [Binary.value_ofInt]
  norm_num

theorem strictMono_coe : StrictMono fun q : Rat => ((q : Real) : EReal) :=
  EReal.coe_strictMono.comp Rat.cast_strictMono

theorem exists_compares (ha : a.amount? = some v) (hb : b.amount? = some w) :
    ∃ order, a.compare? b = some order ∧ order.Compares v w := by
  unfold amount? at ha hb
  unfold compare?
  cases hviewA : a.view with
  | undefined =>
    rw [hviewA] at ha
    cases ha
  | infinite negative =>
    rw [hviewA] at ha
    cases hviewB : b.view with
    | undefined =>
      rw [hviewB] at hb
      cases hb
    | infinite other =>
      rw [hviewB] at hb
      cases ha
      cases hb
      cases negative <;> cases other
      . exact ⟨.eq, rfl, rfl⟩
      . exact ⟨.gt, rfl, bot_lt_top⟩
      . exact ⟨.lt, rfl, bot_lt_top⟩
      . exact ⟨.eq, rfl, rfl⟩
    | finite y =>
      rw [hviewB] at hb
      cases ha
      cases hb
      cases negative
      . exact ⟨.gt, rfl, EReal.coe_lt_top _⟩
      . exact ⟨.lt, rfl, EReal.bot_lt_coe _⟩
  | finite x =>
    rw [hviewA] at ha
    cases hviewB : b.view with
    | undefined =>
      rw [hviewB] at hb
      cases hb
    | infinite other =>
      rw [hviewB] at hb
      cases ha
      cases hb
      cases other
      . exact ⟨.lt, rfl, EReal.coe_lt_top _⟩
      . exact ⟨.gt, rfl, EReal.bot_lt_coe _⟩
    | finite y =>
      rw [hviewB] at hb
      cases ha
      cases hb
      refine ⟨_, rfl, ?_⟩
      rw [Binary.compare_eq]
      rw [← cmp_eq_compare]
      rw [← strictMono_coe.cmp_map_eq]
      exact cmp_compares _ _

theorem exists_amount?_of_le (h : a.le b) : ∃ w, b.amount? = some w := by
  -- Nothing compares with an undefined number.
  unfold amount?
  cases hviewB : b.view with
  | undefined =>
    have hnone : a.compare? b = none := by
      unfold compare?
      rw [hviewB]
      cases a.view <;> rfl
    unfold le at h
    rw [hnone] at h
    cases h
  | infinite | finite => exact ⟨_, rfl⟩

theorem lt_iff (ha : a.amount? = some v) (hb : b.amount? = some w) : a.lt b ↔ v < w := by
  obtain ⟨order, horder, hcompares⟩ := exists_compares ha hb
  unfold lt
  rw [horder]
  rw [beq_iff_eq, Option.some.injEq]
  exact hcompares.eq_lt

theorem le_iff (ha : a.amount? = some v) (hb : b.amount? = some w) : a.le b ↔ v ≤ w := by
  obtain ⟨order, horder, hcompares⟩ := exists_compares ha hb
  unfold le
  rw [horder]
  rw [Bool.or_eq_true, beq_iff_eq, beq_iff_eq, Option.some.injEq, Option.some.injEq]
  rw [hcompares.eq_lt, hcompares.eq_eq]
  exact le_iff_lt_or_eq.symm

theorem amount?_lesser (ha : a.amount? = some v) (hb : b.amount? = some w) :
    (a.lesser b).amount? = some (min v w) := by
  unfold lesser
  split
  . next hlt =>
    rw [min_eq_right ((lt_iff hb ha).1 hlt).le]
    exact hb
  . next hle =>
    rw [min_eq_left (not_lt.1 ((lt_iff hb ha).not.1 hle))]
    exact ha

theorem amount?_real (x : Float) : (real x).amount? = (Binary.view x).amount? := rfl

theorem amount?_of_denotes {x : Float} {q : Rat} (h : Binary.Denotes x q) :
    (real x).amount? = some ((q : Real) : EReal) := by
  obtain ⟨b, hview, rfl⟩ := h
  rw [amount?_real, hview]
  rfl

theorem exists_amount?_double (h : n.amount? = some v) (hnonneg : 0 ≤ v) :
    ∃ u, n.double.amount? = some u ∧ 2 * v ≤ u := by
  cases n with
  | whole k =>
    rw [amount?_whole] at h
    cases h
    refine ⟨_, amount?_whole (2 * k), ?_⟩
    push_cast
    exact le_rfl
  | real x =>
    rw [amount?_real] at h
    cases hview : Binary.view x with
    | undefined =>
      rw [hview] at h
      cases h
    | infinite negative =>
      rw [hview] at h
      cases h
      refine ⟨_, by rw [double, amount?_real, Binary.view_two_mul_of_infinite hview]; rfl, ?_⟩
      cases negative with
      | true => exact absurd hnonneg (by simp)
      | false => exact le_top
    | finite b =>
      rw [hview] at h
      cases h
      rcases Binary.denotes_two_mul ⟨b, hview, rfl⟩ with hexact | ⟨negative, hinfinite, hsign⟩
      . refine ⟨_, amount?_of_denotes hexact, ?_⟩
        push_cast
        exact le_rfl
      . have hvalue : 0 ≤ b.value := by
          exact_mod_cast hnonneg
        obtain rfl : negative = false := by
          by_contra hnegative
          exact absurd (hsign.1 (by simpa using hnegative)) (not_lt.2 hvalue)
        exact ⟨_, by rw [double, amount?_real, hinfinite]; rfl, le_top⟩

end Number
end TurtleCurves
