import Mathlib.Data.List.Induction
import TurtleCurves.Path

/-!
This module contains lemmas about paths. A path on which a polyline has begun is split into its last
polyline and those before it, which is all that the calls on a path look at.
-/

namespace TurtleCurves
namespace Path

variable {α : Type} {path : Path α} {front : List (Array (Point α))} {last : Array (Point α)}
variable {p q : Point α}

def ofParts (front : List (Array (Point α))) (last : Array (Point α)) : Path α :=
  ⟨(front ++ [last]).toArray⟩

theorem exists_ofParts (h : path.polylines ≠ #[]) : ∃ front last, path = ofParts front last := by
  obtain ⟨⟨polylines⟩⟩ := path
  cases polylines using List.reverseRecOn with
  | nil => exact absurd rfl h
  | append_singleton front last => exact ⟨front, last, rfl⟩

theorem polylines_ofParts : (ofParts front last).polylines = (front ++ [last]).toArray := rfl

theorem polylines_ofParts_ne : (ofParts front last).polylines ≠ #[] := by
  simp [ofParts]

theorem beginAt_of_empty (h : path.polylines = #[]) (p : Point α) :
    path.beginAt p = ofParts [] #[p] := by
  unfold beginAt
  rw [h]
  rfl

theorem beginAt_ofParts_of_unused (h : last.size < 2) (p : Point α) :
    (ofParts front last).beginAt p = ofParts front #[p] := by
  simp [beginAt, ofParts, h]

theorem beginAt_ofParts_of_used (h : ¬last.size < 2) (p : Point α) :
    (ofParts front last).beginAt p = ofParts (front ++ [last]) #[p] := by
  simp [beginAt, ofParts, h]

theorem extendTo_ofParts (front : List (Array (Point α))) (last : Array (Point α)) (p : Point α) :
    (ofParts front last).extendTo p = ofParts front (last.push p) := by
  unfold extendTo
  rw [polylines_ofParts]
  simp only [List.modify_toArray, List.size_toArray, List.length_append, List.length_singleton,
    Nat.add_sub_cancel]
  rw [List.modify_eq_take_cons_drop (by simp)]
  simp [ofParts]

theorem tryExtendTo_of_empty (h : path.polylines = #[]) (p : Point α) :
    path.tryExtendTo p = .error .noStart := by
  simp [tryExtendTo, h]

theorem tryExtendTo_of_ne (h : path.polylines ≠ #[]) (p : Point α) :
    path.tryExtendTo p = .ok (path.extendTo p) := by
  simp [tryExtendTo, h]

theorem polylines_extendTo_ne (h : path.polylines ≠ #[]) (p : Point α) :
    (path.extendTo p).polylines ≠ #[] := by
  obtain ⟨front, last, rfl⟩ := exists_ofParts h
  rw [extendTo_ofParts]
  apply polylines_ofParts_ne

theorem segmentsOf_eq_nil (h : last.size < 2) : segmentsOf last = [] := by
  rw [← List.length_eq_zero_iff]
  rw [length_segmentsOf]
  omega

theorem segmentsOf_append_pair (points : List (Point α)) (q p : Point α) :
    segmentsOf (points ++ [q, p]).toArray = segmentsOf (points ++ [q]).toArray ++ [(q, p)] := by
  induction points with
  | nil => rfl
  | cons first rest ih =>
    cases rest with
    | nil => rfl
    | cons second rest =>
      simp only [segmentsOf, List.cons_append, List.tail_cons, List.zip_cons_cons] at ih ⊢
      rw [ih]

theorem segmentsOf_push (h : last.back? = some q) (p : Point α) :
    segmentsOf (last.push p) = segmentsOf last ++ [(q, p)] := by
  rw [Array.back?_eq_some_iff] at h
  obtain ⟨⟨points⟩, rfl⟩ := h
  rw [List.push_toArray, List.push_toArray]
  rw [← List.append_cons]
  apply segmentsOf_append_pair

theorem segments_ofParts (front : List (Array (Point α))) (last : Array (Point α)) :
    (ofParts front last).segments = front.flatMap segmentsOf ++ segmentsOf last := by
  simp [segments, ofParts]

theorem end?_ofParts (front : List (Array (Point α))) (last : Array (Point α)) :
    (ofParts front last).end? = last.back? := by
  simp [end?, ofParts]

theorem polylines_ne_of_end? (h : path.end? = some q) : path.polylines ≠ #[] := by
  intro hempty
  simp [end?, hempty] at h

theorem exists_beginAt (path : Path α) (p : Point α) :
    ∃ front, path.beginAt p = ofParts front #[p] ∧ front.flatMap segmentsOf = path.segments := by
  by_cases h : path.polylines = #[]
  . refine ⟨[], beginAt_of_empty h p, ?_⟩
    simp [segments, h]
  . obtain ⟨front, last, rfl⟩ := exists_ofParts h
    by_cases hlast : last.size < 2
    . refine ⟨front, beginAt_ofParts_of_unused hlast p, ?_⟩
      rw [segments_ofParts]
      rw [segmentsOf_eq_nil hlast, List.append_nil]
    . refine ⟨front ++ [last], beginAt_ofParts_of_used hlast p, ?_⟩
      rw [segments_ofParts]
      rw [List.flatMap_append, List.flatMap_singleton]

theorem polylines_beginAt_ne (path : Path α) (p : Point α) : (path.beginAt p).polylines ≠ #[] := by
  obtain ⟨front, hfront, _⟩ := exists_beginAt path p
  rw [hfront]
  apply polylines_ofParts_ne

@[simp]
theorem segments_beginAt (path : Path α) (p : Point α) :
    (path.beginAt p).segments = path.segments := by
  obtain ⟨front, hfront, hsegments⟩ := exists_beginAt path p
  rw [hfront]
  rw [segments_ofParts]
  rw [segmentsOf_eq_nil (by simp), List.append_nil]
  exact hsegments

@[simp]
theorem end?_beginAt (path : Path α) (p : Point α) : (path.beginAt p).end? = some p := by
  obtain ⟨front, hfront, _⟩ := exists_beginAt path p
  rw [hfront]
  rw [end?_ofParts]
  rfl

theorem segments_extendTo (h : path.end? = some q) (p : Point α) :
    (path.extendTo p).segments = path.segments ++ [(q, p)] := by
  obtain ⟨front, last, rfl⟩ := exists_ofParts (polylines_ne_of_end? h)
  rw [end?_ofParts] at h
  rw [extendTo_ofParts]
  simp [segments_ofParts, segmentsOf_push h]

theorem end?_extendTo (h : path.polylines ≠ #[]) (p : Point α) :
    (path.extendTo p).end? = some p := by
  obtain ⟨front, last, rfl⟩ := exists_ofParts h
  rw [extendTo_ofParts]
  simp [end?_ofParts]

end Path
end TurtleCurves
