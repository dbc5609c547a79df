import TurtleCurves.Proofs.Path.Basic
import TurtleCurves.Turtle.Move

/-!
This module contains how a turtle keeps to the path that it draws. The last polyline of the path is its
stroke: it has begun where the turtle was put last and ends where the turtle stands.
-/

namespace TurtleCurves

def Move.isForward : Move → Bool
  | forward _ => true
  | _ => false

namespace Turtle

variable {t : Turtle} {front : List (Array (Point Float))} {stroke : Array (Point Float)}

/-- The turtle draws a stroke behind polylines that are over, and stands at the end of it. -/
structure Draws (t : Turtle) (front : List (Array (Point Float))) (stroke : Array (Point Float)) :
    Prop where
  path : t.path = .ofParts front stroke
  cursor : stroke.back? = some t.position

theorem exists_draws_onPath (path : Path Float) : ∃ front, (onPath path).Draws front #[origin] := by
  obtain ⟨front, hfront, -⟩ := path.exists_beginAt origin
  exact ⟨front, hfront, rfl⟩

theorem exists_draws_jumpTo (t : Turtle) (p : Point Float) :
    ∃ front, (t.jumpTo p).Draws front #[p] := by
  obtain ⟨front, hfront, -⟩ := t.path.exists_beginAt p
  exact ⟨front, hfront, rfl⟩

theorem Draws.forward (h : t.Draws front stroke) (distance : Float) :
    (t.forward distance).Draws front (stroke.push (t.ahead distance)) := by
  constructor
  . change t.path.extendTo _ = _
    rw [h.path]
    apply Path.extendTo_ofParts
  . apply Array.back?_push

theorem Draws.end? (h : t.Draws front stroke) : t.path.end? = some t.position := by
  rw [h.path]
  rw [Path.end?_ofParts]
  exact h.cursor

theorem Draws.run (h : t.Draws front stroke) {moves : List Move} (hmoves : ∀ p, .jump p ∉ moves) :
    ∃ more, (t.run moves).Draws front (stroke ++ more) ∧ more.size = moves.countP Move.isForward := by
  induction moves generalizing t stroke with
  | nil =>
    refine ⟨#[], ?_, rfl⟩
    rw [Array.append_empty]
    exact h
  | cons move moves ih =>
    have hrest : ∀ p, .jump p ∉ moves := by
      intro p hp
      exact hmoves p (List.mem_cons_of_mem _ hp)
    change ∃ more, ((move.apply t).run moves).Draws front (stroke ++ more) ∧ _
    cases move with
    | jump p => exact absurd List.mem_cons_self (hmoves p)
    | forward distance =>
      obtain ⟨more, hdraws, hsize⟩ := ih (h.forward distance) hrest
      refine ⟨#[t.ahead distance] ++ more, ?_, ?_⟩
      . rw [← Array.append_assoc]
        exact hdraws
      . rw [List.countP_cons_of_pos rfl]
        rw [Array.size_append, hsize]
        apply Nat.add_comm
    | face angle => exact ih ⟨h.path, h.cursor⟩ hrest
    | turn angle => exact ih ⟨h.path, h.cursor⟩ hrest
    | turnDegrees degrees => exact ih ⟨h.path, h.cursor⟩ hrest

theorem exists_draws_run (h : t.Draws front stroke) (moves : List Move) :
    ∃ front stroke, (t.run moves).Draws front stroke := by
  induction moves generalizing t front stroke with
  | nil => exact ⟨front, stroke, h⟩
  | cons move moves ih =>
    cases move with
    | jump p =>
      obtain ⟨_, hjump⟩ := exists_draws_jumpTo t p
      exact ih hjump
    | forward distance => exact ih (h.forward distance)
    | face angle => exact ih (t := t.face angle) ⟨h.path, h.cursor⟩
    | turn angle => exact ih (t := t.turn angle) ⟨h.path, h.cursor⟩
    | turnDegrees degrees => exact ih (t := t.turnDegrees degrees) ⟨h.path, h.cursor⟩

def HasStroke (t : Turtle) (start : Point Float) (steps : Nat) : Prop :=
  ∃ stroke, t.path.polylines.back? = some stroke ∧ stroke[0]? = some start ∧ stroke.size = steps + 1

theorem Draws.hasStroke_run {start : Point Float} (h : t.Draws front #[start]) {moves : List Move}
    (hmoves : ∀ p, .jump p ∉ moves) : (t.run moves).HasStroke start (moves.countP Move.isForward) := by
  obtain ⟨more, hdraws, hsize⟩ := h.run hmoves
  refine ⟨#[start] ++ more, ?_, ?_, ?_⟩
  . rw [hdraws.path]
    simp [Path.ofParts]
  . rw [Array.getElem?_append_left Nat.one_pos]
    rfl
  . rw [Array.size_append, hsize]
    apply Nat.add_comm

/--
A turtle that is put on a path and has moved stands at the end of the path. A step forward adds the segment
from where it stood to where it stands, and no other move adds one. The last polyline starts where the
turtle was put last, and has one vertex more than there were steps since.
-/
theorem run_onPath (path : Path Float) (moves : List Move) :
    let t := (onPath path).run moves
    t.path.end? = some t.position ∧
    (∀ distance, (t.forward distance).path.segments
      = t.path.segments ++ [(t.position, (t.forward distance).position)]) ∧
    (∀ p, (t.jumpTo p).path.segments = t.path.segments ∧ (t.jumpTo p).position = p) ∧
    (∀ angle, ∀ turned ∈ [t.face angle, t.turn angle, t.turnDegrees angle],
      turned.path = t.path ∧ turned.position = t.position) ∧
    ∀ rest : List Move, (∀ p, .jump p ∉ rest) →
      ((onPath path).run rest).HasStroke origin (rest.countP Move.isForward) ∧
      ∀ p, ((t.jumpTo p).run rest).HasStroke p (rest.countP Move.isForward) := by
  intro t
  obtain ⟨_, hstart⟩ := exists_draws_onPath path
  obtain ⟨front, stroke, hdraws⟩ := exists_draws_run hstart moves
  refine ⟨hdraws.end?, ?_, ?_, ?_, ?_⟩
  . intro distance
    exact Path.segments_extendTo hdraws.end? _
  . intro p
    exact ⟨Path.segments_beginAt _ _, rfl⟩
  . intro angle
    simp only [List.forall_mem_cons]
    refine ⟨⟨rfl, rfl⟩, ⟨rfl, rfl⟩, ⟨rfl, rfl⟩, ?_⟩
    simp
  . intro rest hrest
    refine ⟨hstart.hasStroke_run hrest, ?_⟩
    intro p
    obtain ⟨_, hjump⟩ := exists_draws_jumpTo t p
    exact hjump.hasStroke_run hrest

theorem run_onPath_corner :
    let t := (onPath ⟨#[#[⟨0, 0⟩, ⟨1, 0⟩], #[⟨5, 5⟩]]⟩).run [.face 1, .forward 2]
    let corner : List Move := [.forward 2, .turnDegrees 90, .forward 2]
    (∀ p, .jump p ∉ corner) ∧ ((t.jumpTo ⟨3, 0⟩).run corner).HasStroke ⟨3, 0⟩ 2 := by
  intro t corner
  have hcorner : ∀ p, .jump p ∉ corner := by simp [corner]
  have hrun := run_onPath ⟨#[#[⟨0, 0⟩, ⟨1, 0⟩], #[⟨5, 5⟩]]⟩ [.face 1, .forward 2]
  exact ⟨hcorner, (hrun.2.2.2.2 corner hcorner).2 ⟨3, 0⟩⟩

end Turtle
end TurtleCurves
