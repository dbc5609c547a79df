import Mathlib.Data.List.Basic
import Mathlib.Data.List.Forall2
import TurtleCurves.Fault

/-!
This module contains results that come about in steps: if the whole succeeds, each of its steps did.
-/

namespace TurtleCurves
namespace Result

variable {α β : Type} {result : Result α}

theorem bind_eq_ok {next : α → Result β} {b : β} :
    (result >>= next) = .ok b ↔ ∃ a, result = .ok a ∧ next a = .ok b := by
  cases result with
  | error fault =>
    constructor
    . intro h
      cases h
    . rintro ⟨a, h, -⟩
      cases h
  | ok a =>
    constructor
    . intro h
      exact ⟨a, rfl, h⟩
    . rintro ⟨a, h, hnext⟩
      cases h
      exact hnext

theorem bind_eq_error {next : α → Result β} {fault : Fault} :
    (result >>= next) = .error fault ↔
      result = .error fault ∨ ∃ a, result = .ok a ∧ next a = .error fault := by
  cases result with
  | error cause =>
    change Except.error cause = Except.error fault ↔ _
    simp
  | ok a =>
    change next a = .error fault ↔ _
    simp

theorem exists_of_isOk (h : result.isOk = true) : ∃ a, result = .ok a := by
  cases result with
  | error fault => cases h
  | ok a => exact ⟨a, rfl⟩

theorem eq_ok_of_toOption {a : α} (h : result.toOption = some a) : result = .ok a := by
  cases result with
  | error fault => cases h
  | ok b =>
    cases h
    rfl

theorem mapM_cons_eq_ok {f : α → Result β} {a : α} {rest : List α} {bs : List β}
    (h : (a :: rest).mapM f = .ok bs) :
    ∃ b bs', f a = .ok b ∧ rest.mapM f = .ok bs' ∧ bs = b :: bs' := by
  rw [List.mapM_cons, bind_eq_ok] at h
  obtain ⟨b, hb, h⟩ := h
  rw [bind_eq_ok] at h
  obtain ⟨bs', hbs, h⟩ := h
  cases h
  exact ⟨b, bs', hb, hbs, rfl⟩

theorem mapM_eq_ok {f : α → Result β} {g : α → β} {as : List α} (h : ∀ a ∈ as, f a = .ok (g a)) :
    as.mapM f = .ok (as.map g) := by
  induction as with
  | nil => rfl
  | cons a as ih =>
    rw [List.forall_mem_cons] at h
    rw [List.mapM_cons, h.1, ih h.2]
    rfl

theorem mapM_eq_ok_iff {f : α → Result β} {as : List α} {bs : List β} :
    as.mapM f = .ok bs ↔ List.Forall₂ (fun a b => f a = .ok b) as bs := by
  induction as generalizing bs with
  | nil =>
    rw [List.forall₂_nil_left_iff]
    change Except.ok [] = Except.ok bs ↔ _
    rw [Except.ok.injEq, eq_comm]
  | cons a as ih =>
    rw [List.forall₂_cons_left_iff]
    constructor
    . intro h
      obtain ⟨b, bs', hb, hbs, rfl⟩ := mapM_cons_eq_ok h
      exact ⟨b, bs', hb, ih.1 hbs, rfl⟩
    . rintro ⟨b, bs', hb, hbs, rfl⟩
      rw [List.mapM_cons, hb, ih.2 hbs]
      rfl

theorem exists_of_mapM_eq_ok {f : α → Result β} {as : List α} {bs : List β} (h : as.mapM f = .ok bs) :
    (∀ a ∈ as, ∃ b, f a = .ok b) ∧ ∀ b ∈ bs, ∃ a ∈ as, f a = .ok b := by
  rw [mapM_eq_ok_iff] at h
  induction h with
  | nil => simp
  | cons hab _ ih =>
    simp only [List.forall_mem_cons, List.exists_mem_cons_iff]
    exact ⟨⟨⟨_, hab⟩, ih.1⟩, .inl hab, fun b hb => .inr (ih.2 b hb)⟩

theorem mapM_eq_error_iff {f : α → Result β} {as : List α} {fault : Fault} :
    as.mapM f = .error fault ↔
      ∃ before a after, as = before ++ a :: after ∧ (∀ a ∈ before, ∃ b, f a = .ok b) ∧
        f a = .error fault := by
  induction as with
  | nil =>
    constructor
    . intro h
      cases h
    . rintro ⟨before, a, after, h, -⟩
      simp at h
  | cons first rest ih =>
    rw [List.mapM_cons]
    cases hfirst : f first with
    | error cause =>
      constructor
      . intro h
        cases h
        exact ⟨[], first, rest, rfl, by simp, hfirst⟩
      . rintro ⟨before, a, after, has, hbefore, ha⟩
        cases before with
        | nil =>
          cases has
          rw [hfirst] at ha
          cases ha
          rfl
        | cons other before =>
          cases has
          obtain ⟨b, hb⟩ := hbefore first (List.mem_cons_self ..)
          rw [hfirst] at hb
          cases hb
    | ok b =>
      have hrest : (do return b :: (← rest.mapM f)) = Except.error fault ↔ rest.mapM f = .error fault := by
        cases rest.mapM f with
        | error cause => exact Iff.rfl
        | ok bs =>
          constructor
          . intro h
            cases h
          . intro h
            cases h
      refine hrest.trans (ih.trans ?_)
      constructor
      . rintro ⟨before, a, after, rfl, hbefore, ha⟩
        refine ⟨first :: before, a, after, rfl, ?_, ha⟩
        rw [List.forall_mem_cons]
        exact ⟨⟨b, hfirst⟩, hbefore⟩
      . rintro ⟨before, a, after, has, hbefore, ha⟩
        cases before with
        | nil =>
          cases has
          rw [hfirst] at ha
          cases ha
        | cons other before =>
          cases has
          exact ⟨before, a, after, rfl, (List.forall_mem_cons.1 hbefore).2, ha⟩

theorem filterMapM_eq_ok {f : α → Result (Option β)} {g : α → Option β} {as : List α}
    (h : ∀ a ∈ as, f a = .ok (g a)) : as.filterMapM f = .ok (as.filterMap g) := by
  induction as with
  | nil => rfl
  | cons a as ih =>
    rw [List.forall_mem_cons] at h
    rw [List.filterMapM_cons, h.1]
    change (match g a with | none => as.filterMapM f | some b => (do return b :: (← as.filterMapM f))) = _
    rw [ih h.2]
    cases hg : g a with
    | none => rw [List.filterMap_cons_none hg]
    | some b =>
      rw [List.filterMap_cons_some hg]
      rfl

theorem of_filterMapM_eq_ok {f : α → Result (Option β)} {as : List α} {bs : List β}
    (h : as.filterMapM f = .ok bs) : ∀ a ∈ as, ∃ b, f a = .ok b := by
  induction as generalizing bs with
  | nil => simp
  | cons a as ih =>
    rw [List.filterMapM_cons, bind_eq_ok] at h
    obtain ⟨b, ha, h⟩ := h
    rw [List.forall_mem_cons]
    refine ⟨⟨b, ha⟩, ?_⟩
    cases b with
    | none => exact ih h
    | some b =>
      rw [bind_eq_ok] at h
      obtain ⟨bs', hrest, -⟩ := h
      exact ih hrest

theorem filterMapM_eq_nil {f : α → Result (Option β)} {as : List α} (h : ∀ a ∈ as, f a = .ok none) :
    as.filterMapM f = .ok [] := by
  rw [filterMapM_eq_ok h]
  simp

theorem of_forM_eq_ok {f : α → Result Unit} {as : List α} (h : as.forM f = .ok ()) :
    ∀ a ∈ as, f a = .ok () := by
  induction as with
  | nil => simp
  | cons a as ih =>
    rw [List.forM_eq_forM, List.forM_cons, bind_eq_ok] at h
    obtain ⟨_, ha, h⟩ := h
    intro a' ha'
    rcases List.mem_cons.1 ha' with rfl | ha'
    . exact ha
    . exact ih h a' ha'

end Result
end TurtleCurves
