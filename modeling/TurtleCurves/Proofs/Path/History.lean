import TurtleCurves.Proofs.Path.Basic

/-!
This module contains the growth of paths over whole histories of calls, which come directly or from any
number of turtles that share a path. Nothing that was drawn is ever lost or changed.
-/

namespace TurtleCurves

namespace Path

inductive Call (α : Type)
  | beginAt (p : Point α)
  | extendTo (p : Point α)

variable {α : Type} {path : Path α} {p q : Point α}

/-- The path that a call leaves. A fault on extending a path leaves the path as it was. -/
def after (path : Path α) : Call α → Path α
  | .beginAt p => path.beginAt p
  | .extendTo p =>
    match path.tryExtendTo p with
    | .ok extended => extended
    | .error _ => path

def afterAll (path : Path α) (calls : List (Call α)) : Path α :=
  calls.foldl after path

def successes (path : Path α) : List (Call α) → Nat
  | [] => 0
  | .beginAt p :: rest => (path.beginAt p).successes rest
  | .extendTo p :: rest =>
    match path.tryExtendTo p with
    | .ok extended => extended.successes rest + 1
    | .error _ => path.successes rest

/-- Every polyline has a vertex, and all but the last have a segment. -/
structure Tidy (path : Path α) : Prop where
  begun : ∀ polyline ∈ path.polylines, 1 ≤ polyline.size
  drawn : ∀ polyline ∈ path.polylines.pop, 2 ≤ polyline.size

theorem tidy_ofParts_iff {front : List (Array (Point α))} {last : Array (Point α)} :
    (ofParts front last).Tidy ↔ (∀ polyline ∈ front, 2 ≤ polyline.size) ∧ 1 ≤ last.size := by
  constructor
  . rintro ⟨hbegun, hdrawn⟩
    constructor
    . simpa [ofParts] using hdrawn
    . apply hbegun
      simp [ofParts]
  . rintro ⟨hfront, hlast⟩
    constructor
    . intro polyline hpolyline
      simp only [polylines_ofParts, List.mem_toArray, List.mem_append, List.mem_singleton]
        at hpolyline
      obtain hmem | rfl := hpolyline
      . have := hfront polyline hmem
        omega
      . exact hlast
    . simpa [ofParts] using hfront

theorem tidy_empty : (empty : Path α).Tidy := by
  constructor
  . simp [empty]
  . simp [empty]

theorem Tidy.beginAt_eq (h : path.Tidy) (p : Point α) :
    path.beginAt p = ofParts (path.polylines.toList.filter fun polyline => 2 ≤ polyline.size) #[p] := by
  by_cases hempty : path.polylines = #[]
  . rw [beginAt_of_empty hempty]
    rw [hempty]
    rfl
  . obtain ⟨front, last, rfl⟩ := exists_ofParts hempty
    rw [tidy_ofParts_iff] at h
    have hfront : front.filter (fun polyline => decide (2 ≤ polyline.size)) = front := by
      rw [List.filter_eq_self]
      intro polyline hpolyline
      exact decide_eq_true (h.1 polyline hpolyline)
    rw [polylines_ofParts]
    rw [List.filter_append, hfront]
    by_cases hlast : last.size < 2
    . rw [beginAt_ofParts_of_unused hlast]
      rw [List.filter_cons_of_neg (by simp [hlast])]
      rw [List.filter_nil, List.append_nil]
    . -- The last polyline is kept because it has a segment, so it may stand before a new one.
      rw [beginAt_ofParts_of_used hlast]
      rw [List.filter_cons_of_pos (by exact decide_eq_true (Nat.not_lt.1 hlast))]
      rfl

theorem Tidy.beginAt (h : path.Tidy) (p : Point α) : (path.beginAt p).Tidy := by
  rw [h.beginAt_eq]
  rw [tidy_ofParts_iff]
  constructor
  . intro polyline hpolyline
    exact of_decide_eq_true (List.mem_filter.1 hpolyline).2
  . simp

theorem Tidy.extendTo (h : path.Tidy) (hpath : path.polylines ≠ #[]) (p : Point α) :
    (path.extendTo p).Tidy := by
  obtain ⟨front, last, rfl⟩ := exists_ofParts hpath
  rw [tidy_ofParts_iff] at h
  rw [extendTo_ofParts]
  rw [tidy_ofParts_iff]
  exact ⟨h.1, by simp⟩

theorem Tidy.exists_end? (h : path.Tidy) (hpath : path.polylines ≠ #[]) :
    ∃ q, path.end? = some q := by
  obtain ⟨front, last, rfl⟩ := exists_ofParts hpath
  rw [tidy_ofParts_iff] at h
  rw [end?_ofParts]
  cases hlast : last.back? with
  | none =>
    rw [Array.back?_eq_none_iff] at hlast
    simp [hlast] at h
  | some q => exact ⟨q, rfl⟩

theorem after_extendTo_of_empty (h : path.polylines = #[]) (p : Point α) :
    path.after (.extendTo p) = path := by
  simp only [after, tryExtendTo_of_empty h]

theorem after_extendTo_of_ne (h : path.polylines ≠ #[]) (p : Point α) :
    path.after (.extendTo p) = path.extendTo p := by
  simp only [after, tryExtendTo_of_ne h]

theorem Tidy.after (h : path.Tidy) (call : Call α) : (path.after call).Tidy := by
  cases call with
  | beginAt p => exact h.beginAt p
  | extendTo p =>
    by_cases hempty : path.polylines = #[]
    . rw [after_extendTo_of_empty hempty]
      exact h
    . rw [after_extendTo_of_ne hempty]
      exact h.extendTo hempty p

theorem Tidy.afterAll (h : path.Tidy) (calls : List (Call α)) :
    (path.afterAll calls).Tidy := by
  induction calls generalizing path with
  | nil => exact h
  | cons call rest ih =>
    apply ih
    exact h.after call

theorem polylines_afterAll_eq_empty_iff (calls : List (Call α)) :
    (path.afterAll calls).polylines = #[] ↔
      path.polylines = #[] ∧ ∀ p, .beginAt p ∉ calls := by
  induction calls generalizing path with
  | nil => simp [afterAll]
  | cons call rest ih =>
    change ((path.after call).afterAll rest).polylines = #[] ↔ _
    rw [ih]
    cases call with
    | beginAt q =>
      have hne : (path.after (.beginAt q)).polylines ≠ #[] := polylines_beginAt_ne path q
      simp only [hne, false_and, false_iff, not_and]
      intro _ hnone
      exact hnone q List.mem_cons_self
    | extendTo q =>
      by_cases hempty : path.polylines = #[]
      . rw [after_extendTo_of_empty hempty]
        simp
      . rw [after_extendTo_of_ne hempty]
        simp [hempty, polylines_extendTo_ne hempty]

theorem length_segments_afterAll (h : path.Tidy) (calls : List (Call α)) :
    (path.afterAll calls).segments.length = path.segments.length + path.successes calls := by
  induction calls generalizing path with
  | nil => rfl
  | cons call rest ih =>
    change ((path.after call).afterAll rest).segments.length = _
    rw [ih (h.after call)]
    cases call with
    | beginAt q =>
      change (path.beginAt q).segments.length + _ = _
      rw [segments_beginAt]
      rfl
    | extendTo q =>
      by_cases hempty : path.polylines = #[]
      . rw [after_extendTo_of_empty hempty]
        simp only [successes, tryExtendTo_of_empty hempty]
      . obtain ⟨r, hr⟩ := h.exists_end? hempty
        rw [after_extendTo_of_ne hempty]
        rw [segments_extendTo hr]
        simp only [successes, tryExtendTo_of_ne hempty, List.length_append, List.length_singleton]
        omega

theorem tryExtendTo_eq_error_iff {fault : Fault} :
    path.tryExtendTo p = .error fault ↔ fault = .noStart ∧ path.polylines = #[] := by
  by_cases h : path.polylines = #[]
  . rw [tryExtendTo_of_empty h]
    simp [h, eq_comm]
  . rw [tryExtendTo_of_ne h]
    simp [h]

theorem tryExtendTo_eq_ok {extended : Path α} (htidy : path.Tidy)
    (h : path.tryExtendTo p = .ok extended) :
    ∃ q, path.end? = some q ∧ extended.segments = path.segments ++ [(q, p)] := by
  by_cases hempty : path.polylines = #[]
  . rw [tryExtendTo_of_empty hempty] at h
    cases h
  . rw [tryExtendTo_of_ne hempty] at h
    cases h
    obtain ⟨q, hq⟩ := htidy.exists_end? hempty
    exact ⟨q, hq, segments_extendTo hq p⟩

end Path
end TurtleCurves
