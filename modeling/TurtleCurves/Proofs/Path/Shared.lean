import TurtleCurves.Proofs.Path.History
import TurtleCurves.Turtle.Move

/-!
This module contains paths that are shared: calls come directly or from any number of turtles that go on
with the same path. Whatever order they come in, nothing that was drawn is lost or changed.
-/

namespace TurtleCurves

structure Board where
  path : Path Float := Path.empty
  turtles : List Turtle := []

namespace Board

variable {b : Board}

inductive Act
  | call (call : Path.Call Float)
  | takeTurtle
  | move (index : Nat) (m : Move)

def share (turtles : List Turtle) (path : Path Float) : Board :=
  ⟨path, turtles.map fun t => { t with path := path }⟩

def after (b : Board) : Act → Board
  | .call call => share b.turtles (b.path.after call)
  | .takeTurtle =>
    let t := Turtle.onPath b.path
    share (b.turtles ++ [t]) t.path
  | .move index m =>
    match b.turtles[index]? with
    | some t =>
      let moved := m.apply t
      share (b.turtles.set index moved) moved.path
    | none => b

def afterAll (b : Board) (acts : List Act) : Board :=
  acts.foldl after b

def callOfMove? (t : Turtle) : Move → Option (Path.Call Float)
  | .jump p => some (.beginAt p)
  | .forward distance => some (.extendTo (t.ahead distance))
  | .face _ | .turn _ | .turnDegrees _ => none

def call? (b : Board) : Act → Option (Path.Call Float)
  | .call call => some call
  | .takeTurtle => some (.beginAt Turtle.origin)
  | .move index m => b.turtles[index]?.bind fun t => callOfMove? t m

def calls (b : Board) : List Act → List (Path.Call Float)
  | [] => []
  | act :: rest => (b.call? act).toList ++ (b.after act).calls rest

/-- The turtles go on with the path, which begins where the first one was taken. -/
structure Shared (b : Board) : Prop where
  path_eq : ∀ t ∈ b.turtles, t.path = b.path
  begun : b.turtles ≠ [] → b.path.polylines ≠ #[]

@[simp]
theorem path_share (turtles : List Turtle) (path : Path Float) : (share turtles path).path = path :=
  rfl

theorem shared_share {turtles : List Turtle} {path : Path Float}
    (h : turtles ≠ [] → path.polylines ≠ #[]) :
    (share turtles path).Shared := by
  constructor
  . intro t ht
    simp only [share, List.mem_map] at ht
    obtain ⟨original, _, rfl⟩ := ht
    rfl
  . intro hturtles
    apply h
    simpa [share] using hturtles

theorem path_apply {t : Turtle} (h : t.path.polylines ≠ #[]) (m : Move) :
    (m.apply t).path = t.path.afterAll (callOfMove? t m).toList := by
  cases m with
  | forward distance =>
    -- A turtle extends its path without asking whether it has begun, which is what taking it ensures.
    exact (Path.after_extendTo_of_ne h (t.ahead distance)).symm
  | jump p => rfl
  | face angle => rfl
  | turn angle => rfl
  | turnDegrees degrees => rfl

theorem path_after (h : b.Shared) (act : Act) :
    (b.after act).path = b.path.afterAll (b.call? act).toList := by
  cases act with
  | call call => rfl
  | takeTurtle => rfl
  | move index m =>
    simp only [after, call?]
    cases ht : b.turtles[index]? with
    | none => rfl
    | some t =>
      have hmem : t ∈ b.turtles := List.mem_of_getElem? ht
      have hbegun : t.path.polylines ≠ #[] := by
        rw [h.path_eq t hmem]
        exact h.begun (List.ne_nil_of_mem hmem)
      dsimp only [path_share, Option.bind_some]
      rw [path_apply hbegun]
      rw [h.path_eq t hmem]

theorem path_begun_afterAll {path : Path Float} (h : path.polylines ≠ #[])
    (calls : List (Path.Call Float)) :
    (path.afterAll calls).polylines ≠ #[] := by
  rw [ne_eq, Path.polylines_afterAll_eq_empty_iff]
  intro hempty
  exact h hempty.1

theorem Shared.after (h : b.Shared) (act : Act) : (b.after act).Shared := by
  have hpath := path_after h act
  cases act with
  | call call =>
    apply shared_share
    intro hturtles
    exact path_begun_afterAll (h.begun hturtles) [call]
  | takeTurtle =>
    apply shared_share
    intro _
    exact Path.polylines_beginAt_ne b.path Turtle.origin
  | move index m =>
    simp only [Board.after] at hpath ⊢
    cases ht : b.turtles[index]? with
    | none => exact h
    | some t =>
      simp only [ht, path_share] at hpath
      apply shared_share
      intro _
      rw [hpath]
      exact path_begun_afterAll (h.begun (List.ne_nil_of_mem (List.mem_of_getElem? ht))) _

theorem path_afterAll (h : b.Shared) (acts : List Act) :
    (b.afterAll acts).path = b.path.afterAll (b.calls acts) := by
  induction acts generalizing b with
  | nil => rfl
  | cons act rest ih =>
    change ((b.after act).afterAll rest).path = _
    rw [ih (h.after act)]
    rw [path_after h]
    simp only [calls, Path.afterAll, List.foldl_append]

theorem shared_empty : ({} : Board).Shared := by
  constructor
  . simp
  . simp

theorem Shared.afterAll (h : b.Shared) (acts : List Act) : (b.afterAll acts).Shared := by
  induction acts generalizing b with
  | nil => exact h
  | cons act rest ih => exact ih (h.after act)

theorem tidy_of_mem {acts : List Act} {t : Turtle} (h : t ∈ (afterAll {} acts).turtles) : t.path.Tidy := by
  rw [(shared_empty.afterAll acts).path_eq t h]
  rw [path_afterAll shared_empty]
  apply Path.tidy_empty.afterAll

/--
After any history of calls on a path, its polylines are begun and all but the last are drawn. Extending
the path fails exactly before it was begun; beginning a polyline draws nothing, and extending one draws
one segment, from the end of the path, after all that was there. So the segments are as many as the
extensions that succeeded.
-/
theorem drawn_history (acts : List Act) :
    let path := (afterAll {} acts).path
    let calls := calls {} acts
    path = Path.empty.afterAll calls ∧
    path.Tidy ∧
    (∀ p fault, path.tryExtendTo p = .error fault ↔ fault = .noStart ∧ ∀ q, .beginAt q ∉ calls) ∧
    (∀ p fault, path.tryExtendTo p = .error fault → path.after (.extendTo p) = path) ∧
    (∀ p, (path.beginAt p).segments = path.segments) ∧
    (∀ p extended, path.tryExtendTo p = .ok extended →
      ∃ q, path.end? = some q ∧ extended.segments = path.segments ++ [(q, p)]) ∧
    path.segmentCount = path.segments.length ∧
    path.segmentCount = Path.empty.successes calls := by
  intro path calls
  have hpath : path = Path.empty.afterAll calls := path_afterAll shared_empty acts
  have htidy : path.Tidy := by
    rw [hpath]
    exact Path.tidy_empty.afterAll calls
  refine ⟨hpath, htidy, ?_, ?_, ?_, ?_, Path.segmentCount_eq path, ?_⟩
  . intro p fault
    rw [Path.tryExtendTo_eq_error_iff]
    rw [hpath]
    rw [Path.polylines_afterAll_eq_empty_iff]
    simp [Path.empty]
  . intro p fault h
    rw [Path.tryExtendTo_eq_error_iff] at h
    exact Path.after_extendTo_of_empty h.2 p
  . intro p
    apply Path.segments_beginAt
  . intro p extended h
    exact Path.tryExtendTo_eq_ok htidy h
  . rw [Path.segmentCount_eq]
    rw [hpath]
    rw [Path.length_segments_afterAll Path.tidy_empty]
    simp [Path.empty, Path.segments]

theorem drawn_history_two_turtles :
    let acts : List Act := [.call (.extendTo ⟨5, 5⟩), .takeTurtle, .takeTurtle, .move 0 (.forward 1),
      .move 1 (.jump ⟨2, 3⟩), .call (.extendTo ⟨4, 3⟩)]
    let path := (afterAll {} acts).path
    ∃ extended, path.tryExtendTo ⟨7, 7⟩ = .ok extended ∧
      ∃ q, path.end? = some q ∧ extended.segments = path.segments ++ [(q, ⟨7, 7⟩)] := by
  intro acts path
  obtain ⟨extended, h⟩ : ∃ extended, path.tryExtendTo ⟨7, 7⟩ = .ok extended := ⟨_, rfl⟩
  exact ⟨extended, h, (drawn_history acts).2.2.2.2.2.1 ⟨7, 7⟩ extended h⟩

end Board
end TurtleCurves
