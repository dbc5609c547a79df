import TurtleCurves.Curve.Dragon
import TurtleCurves.Engine
import TurtleCurves.Proofs.Curve.Basic

/-!
This module contains the behaviour of engines over whole histories of calls. A render that is not
refused at once starts over, so what it does is described without any engine.
-/

namespace TurtleCurves

inductive Call
  | enter (phase : Phase)
  | render {ω : Type} (watcher : Watcher ω) (notes : ω) (subject : Subject)

def Subject.check : Subject → Result Nat
  | .other => .error .notDrawable
  | .curve c => Count.forCurve c.depth

namespace Engine

variable {ω : Type}

/-- The engine that a call leaves. A fault on entering a phase leaves the engine as it was. -/
def after (e : Engine) : Call → Engine
  | .enter phase =>
    match e.enter phase with
    | .ok entered => entered
    | .error _ => e
  | .render watcher notes subject => (e.render watcher notes subject).engine

def afterAll (e : Engine) (calls : List Call) : Engine :=
  calls.foldl after e

def drawn (c : Curve) (watcher : Watcher ω) (notes : ω) (word : List Symbol) :
    ω × Result (Path Float) :=
  match c.place .fresh with
  | .error fault => (notes, .error fault)
  | .ok t =>
    let (noted, result) := interpret c watcher .interpreting notes t word
    (noted, result.map Turtle.path)

def lastPhase {α : Type} : Result α → Phase
  | .ok _ => .done
  | .error _ => .interpreting

def outcomeOf (c : Curve) (watcher : Watcher ω) (notes : ω) (word : List Symbol) : Outcome ω :=
  let (noted, result) := drawn c watcher notes word
  ⟨⟨lastPhase result, word.length⟩, noted, result⟩

theorem enter_of_next {e : Engine} {phase : Phase} (h : e.phase.next? = some phase) :
    e.enter phase = .ok { e with phase := phase } := by
  unfold enter
  rw [if_pos h]

theorem enter_of_not_next {e : Engine} {phase : Phase} (h : e.phase.next? ≠ some phase) :
    e.enter phase = .error (.transition e.phase phase) := by
  unfold enter
  rw [if_neg h]

theorem drawSequence_expanding (watcher : Watcher ω) (notes : ω) (c : Curve) (word : List Symbol) :
    drawSequence ⟨.expanding, word.length⟩ watcher notes c word = outcomeOf c watcher notes word := by
  unfold drawSequence outcomeOf drawn
  -- The phases before both transitions are fixed, so that they are in order holds by computation.
  rw [enter_of_next rfl]
  dsimp
  cases c.place .fresh with
  | error fault => rfl
  | ok t =>
    dsimp
    cases interpret c watcher .interpreting notes t word with
    | mk noted result =>
      cases result with
      | error fault => rfl
      | ok t =>
        dsimp
        rw [enter_of_next rfl]
        rfl

theorem render_of_check_error {subject : Subject} {fault : Fault} (h : subject.check = .error fault)
    (e : Engine) (watcher : Watcher ω) (notes : ω) :
    e.render watcher notes subject = ⟨e, notes, .error fault⟩ := by
  cases subject with
  | other =>
    cases h
    rfl
  | curve c =>
    simp only [Subject.check] at h
    unfold render
    dsimp
    rw [h]

theorem render_of_check_ok {c : Curve} {depth : Nat} (h : (Subject.curve c).check = .ok depth)
    (e : Engine) (watcher : Watcher ω) (notes : ω) :
    e.render watcher notes (.curve c) = outcomeOf c watcher notes (c.expansion depth) := by
  simp only [Subject.check] at h
  unfold render
  dsimp
  rw [h]
  dsimp
  rw [enter_of_next rfl]
  rw [Curve.sequence_eq]
  apply drawSequence_expanding

theorem after_enter_of_next {e : Engine} {phase : Phase} (h : e.phase.next? = some phase) :
    e.after (.enter phase) = { e with phase := phase } := by
  simp only [after]
  rw [enter_of_next h]

theorem after_enter_of_not_next {e : Engine} {phase : Phase} (h : e.phase.next? ≠ some phase) :
    e.after (.enter phase) = e := by
  simp only [after]
  rw [enter_of_not_next h]

def transitions : List (Phase × Phase) :=
  [(.idle, .expanding), (.expanding, .interpreting), (.interpreting, .done)]

theorem mem_transitions_iff {before after : Phase} :
    (before, after) ∈ transitions ↔ before.next? = some after := by
  cases before <;> cases after <;> decide

/--
After any history an engine goes from phase to phase in their order, is left as it was by a render that
is refused at once, and renders everything else like a new engine.
-/
theorem calls_after_history (history : List Call) :
    let e := afterAll {} history
    (∀ phase,
      if (e.phase, phase) ∈ transitions then
        e.enter phase = .ok { e with phase := phase } ∧
          e.after (.enter phase) = { e with phase := phase }
      else
        e.enter phase = .error (.transition e.phase phase) ∧ e.after (.enter phase) = e) ∧
    (∀ (ω : Type) (watcher : Watcher ω) (notes : ω) (subject : Subject) (fault : Fault),
      subject.check = .error fault →
        e.render watcher notes subject = ⟨e, notes, .error fault⟩) ∧
    ∀ (ω : Type) (watcher : Watcher ω) (notes : ω) (c : Curve) (depth : Nat),
      (Subject.curve c).check = .ok depth →
        e.render watcher notes (.curve c) = ({} : Engine).render watcher notes (.curve c) ∧
        ∃ word, c.sequence depth = .ok word ∧
          e.render watcher notes (.curve c) = outcomeOf c watcher notes word := by
  intro e
  refine ⟨?_, ?_, ?_⟩
  . intro phase
    split
    . next h =>
      rw [mem_transitions_iff] at h
      exact ⟨enter_of_next h, after_enter_of_next h⟩
    . next h =>
      rw [mem_transitions_iff] at h
      exact ⟨enter_of_not_next h, after_enter_of_not_next h⟩
  . intro ω watcher notes subject fault h
    apply render_of_check_error h
  . intro ω watcher notes c depth h
    constructor
    . rw [render_of_check_ok h]
      rw [render_of_check_ok h]
    . refine ⟨c.expansion depth, c.sequence_eq depth, ?_⟩
      apply render_of_check_ok h

theorem calls_after_history_given_up :
    let c : Curve := ⟨Dragon.pattern.definition, 2, Dragon.grammar_closed⟩
    let givesUp : Watcher Unit := { notice := fun notes _ _ _ => (notes, some .watcher) }
    let e := afterAll {} [.enter .expanding, .enter .done, .render givesUp () (.curve c)]
    (Subject.curve c).check = .ok 2 ∧
      e.render Watcher.idle () (.curve c) = ({} : Engine).render Watcher.idle () (.curve c) := by
  intro c givesUp e
  have hcheck : (Subject.curve c).check = .ok 2 := rfl
  exact ⟨hcheck, ((calls_after_history _).2.2 Unit Watcher.idle () c 2 hcheck).1⟩

end Engine
end TurtleCurves
