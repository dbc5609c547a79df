import TurtleCurves.Curve.Scripted
import TurtleCurves.Proofs.Engine

/-!
This module contains what watchers get to see. A render tells its watcher of every symbol once, in the
order of the expansion and right after the symbol was drawn, until all are drawn or somebody gives up.
A watcher that only observes has no influence on what is drawn.
-/

namespace TurtleCurves

structure Notice where
  phase : Phase
  symbol : Symbol
  turtle : Turtle
  answer : Option Fault

namespace Watcher

variable {ω : Type}

/-- A watcher only observes if the drawing goes on with the turtle that the watcher was shown. -/
def Observes (watcher : Watcher ω) : Prop :=
  ∀ notes phase s t, watcher.handBack notes phase s t = t

/-- Does as a watcher does, and keeps a log of all that it is told beside its notes. -/
def logged (watcher : Watcher ω) : Watcher (ω × List Notice) where
  notice := fun (notes, log) phase s t =>
    let (noted, answer) := watcher.notice notes phase s t
    ((noted, log ++ [⟨phase, s, t, answer⟩]), answer)
  handBack := fun (notes, _) phase s t => watcher.handBack notes phase s t

theorem observes_idle : idle.Observes := by
  intro notes phase s t
  rfl

theorem notice_logged {watcher : Watcher ω} {notes noted : ω} {phase : Phase} {s : Symbol}
    {t : Turtle} {answer : Option Fault} (h : watcher.notice notes phase s t = (noted, answer))
    (log : List Notice) :
    watcher.logged.notice (notes, log) phase s t
      =
    ((noted, log ++ [⟨phase, s, t, answer⟩]), answer) := by
  simp only [logged, h]

theorem Observes.logged {watcher : Watcher ω} (h : watcher.Observes) : watcher.logged.Observes := by
  rintro ⟨notes, log⟩ phase s t
  exact h notes phase s t

end Watcher

namespace Curve

def drawAll (c : Curve) (t : Turtle) (word : List Symbol) : Result Turtle :=
  word.foldlM (fun t s => c.draw s t) t

def turtleAfter (c : Curve) (word : List Symbol) : Result Turtle := do
  c.drawAll (← c.place .fresh) word

section DrawAll

variable {c : Curve} {t moved : Turtle} {s : Symbol} {fault : Fault}

theorem drawAll_cons_of_ok (h : c.draw s t = .ok moved) (rest : List Symbol) :
    c.drawAll t (s :: rest) = c.drawAll moved rest := by
  unfold drawAll
  rw [List.foldlM_cons]
  rw [h]
  rfl

theorem drawAll_cons_of_error (h : c.draw s t = .error fault) (rest : List Symbol) :
    c.drawAll t (s :: rest) = .error fault := by
  unfold drawAll
  rw [List.foldlM_cons]
  rw [h]
  rfl

theorem turtleAfter_of_ok (h : c.place .fresh = .ok t) (word : List Symbol) :
    c.turtleAfter word = c.drawAll t word := by
  unfold turtleAfter
  rw [h]
  rfl

theorem turtleAfter_of_error (h : c.place .fresh = .error fault) (word : List Symbol) :
    c.turtleAfter word = .error fault := by
  unfold turtleAfter
  rw [h]
  rfl

end DrawAll

end Curve

/-- What a watcher is told while a turtle draws a sequence, and how the drawing ends. -/
inductive Told (c : Curve) (phase : Phase) :
    Turtle → List Symbol → List Notice → Result Turtle → Prop
  | finished {t : Turtle} : Told c phase t [] [] (.ok t)
  | undrawn {t : Turtle} {s : Symbol} {rest : List Symbol} {fault : Fault} :
    c.draw s t = .error fault → Told c phase t (s :: rest) [] (.error fault)
  | givenUp {t moved : Turtle} {s : Symbol} {rest : List Symbol} {fault : Fault} :
    c.draw s t = .ok moved →
    Told c phase t (s :: rest) [⟨phase, s, moved, some fault⟩] (.error fault)
  | next {t moved : Turtle} {s : Symbol} {rest : List Symbol} {told : List Notice}
    {result : Result Turtle} :
    c.draw s t = .ok moved →
    Told c phase moved rest told result →
    Told c phase t (s :: rest) (⟨phase, s, moved, none⟩ :: told) result

namespace Told

variable {c : Curve} {phase : Phase} {t : Turtle} {word : List Symbol} {told : List Notice}
variable {result : Result Turtle} {k : Nat} {notice : Notice} {fault : Fault}

theorem phase_eq (h : Told c phase t word told result) : ∀ notice ∈ told, notice.phase = phase := by
  induction h with
  | finished => simp
  | undrawn _ => simp
  | givenUp _ => simp
  | next _ _ ih => simpa using ih

theorem drawAll_take (h : Told c phase t word told result) (hk : told[k]? = some notice) :
    c.drawAll t (word.take (k + 1)) = .ok notice.turtle := by
  induction h generalizing k with
  | finished => simp at hk
  | undrawn _ => simp at hk
  | givenUp hdraw =>
    cases k with
    | zero =>
      cases hk
      rw [List.take_succ_cons, List.take_zero]
      exact Curve.drawAll_cons_of_ok hdraw []
    | succ k => cases hk
  | next hdraw _ ih =>
    rw [List.take_succ_cons]
    rw [Curve.drawAll_cons_of_ok hdraw]
    cases k with
    | zero =>
      cases hk
      rfl
    | succ k => exact ih hk

theorem of_answer (h : Told c phase t word told result) (hk : told[k]? = some notice)
    (hanswer : notice.answer = some fault) :
    told.map Notice.symbol = word.take (k + 1) ∧ result = .error fault := by
  induction h generalizing k with
  | finished => simp at hk
  | undrawn _ => simp at hk
  | givenUp _ =>
    cases k with
    | zero =>
      cases hk
      cases hanswer
      exact ⟨rfl, rfl⟩
    | succ k => cases hk
  | next _ _ ih =>
    cases k with
    | zero =>
      cases hk
      cases hanswer
    | succ k =>
      obtain ⟨hsymbols, hresult⟩ := ih hk
      refine ⟨?_, hresult⟩
      rw [List.map_cons, List.take_succ_cons]
      rw [hsymbols]

theorem result_of_silent (h : Told c phase t word told result)
    (hsilent : ∀ notice ∈ told, notice.answer = none) :
    result = c.drawAll t word := by
  induction h with
  | finished => rfl
  | undrawn hdraw => rw [Curve.drawAll_cons_of_error hdraw]
  | givenUp _ => simp at hsilent
  | next hdraw _ ih =>
    rw [Curve.drawAll_cons_of_ok hdraw]
    apply ih
    intro notice hnotice
    exact hsilent notice (List.mem_cons_of_mem _ hnotice)

theorem symbols_of_ok {moved : Turtle} (h : Told c phase t word told result)
    (hresult : result = .ok moved) :
    told.map Notice.symbol = word := by
  induction h with
  | finished => rfl
  | undrawn _ => cases hresult
  | givenUp _ => cases hresult
  | next _ _ ih =>
    rw [List.map_cons]
    rw [ih hresult]

end Told

namespace Engine

variable {ω : Type} {c : Curve} {watcher : Watcher ω}

section Steps

variable {phase : Phase} {notes noted : ω} {t moved : Turtle} {s : Symbol} {fault : Fault}

theorem interpret_of_undrawn (hdraw : c.draw s t = .error fault) (rest : List Symbol) :
    interpret c watcher phase notes t (s :: rest) = (notes, .error fault) := by
  simp only [interpret, hdraw]

theorem interpret_of_given_up (hdraw : c.draw s t = .ok moved)
    (hnotice : watcher.notice notes phase s moved = (noted, some fault)) (rest : List Symbol) :
    interpret c watcher phase notes t (s :: rest) = (noted, .error fault) := by
  simp only [interpret, hdraw, hnotice]

theorem interpret_of_silent (hwatcher : watcher.Observes) (hdraw : c.draw s t = .ok moved)
    (hnotice : watcher.notice notes phase s moved = (noted, none)) (rest : List Symbol) :
    interpret c watcher phase notes t (s :: rest) = interpret c watcher phase noted moved rest := by
  simp only [interpret, hdraw, hnotice, hwatcher notes phase s moved]

end Steps

-- The log is generalized from the empty one to any, which is what the drawing carries along.
theorem exists_told (hwatcher : watcher.Observes) (phase : Phase) (notes : ω) (log : List Notice)
    (t : Turtle) (word : List Symbol) :
    ∃ noted told result,
      interpret c watcher phase notes t word = (noted, result)
        ∧
      interpret c watcher.logged phase (notes, log) t word = ((noted, log ++ told), result)
        ∧
      Told c phase t word told result := by
  induction word generalizing notes log t with
  | nil =>
    refine ⟨notes, [], .ok t, rfl, ?_, .finished⟩
    rw [List.append_nil]
    rfl
  | cons s rest ih =>
    cases hdraw : c.draw s t with
    | error fault =>
      refine ⟨notes, [], .error fault, interpret_of_undrawn hdraw rest, ?_, .undrawn hdraw⟩
      rw [List.append_nil]
      exact interpret_of_undrawn hdraw rest
    | ok moved =>
      cases hnotice : watcher.notice notes phase s moved with
      | mk noted answer =>
        have hlogged := Watcher.notice_logged hnotice log
        cases answer with
        | some fault =>
          refine ⟨noted, [⟨phase, s, moved, some fault⟩], .error fault, ?_, ?_, .givenUp hdraw⟩
          . exact interpret_of_given_up hdraw hnotice rest
          . exact interpret_of_given_up hdraw hlogged rest
        | none =>
          obtain ⟨last, told, result, hplain, hrest, htold⟩ :=
            ih noted (log ++ [⟨phase, s, moved, none⟩]) moved
          refine ⟨last, ⟨phase, s, moved, none⟩ :: told, result, ?_, ?_, .next hdraw htold⟩
          . rw [interpret_of_silent hwatcher hdraw hnotice]
            exact hplain
          . rw [interpret_of_silent hwatcher.logged hdraw hlogged]
            rw [List.append_cons log _ told]
            exact hrest

theorem interpret_idle (c : Curve) (phase : Phase) (t : Turtle) (word : List Symbol) :
    interpret c Watcher.idle phase () t word = ((), c.drawAll t word) := by
  induction word generalizing t with
  | nil => rfl
  | cons s rest ih =>
    cases hdraw : c.draw s t with
    | error fault =>
      rw [interpret_of_undrawn hdraw]
      rw [Curve.drawAll_cons_of_error hdraw]
    | ok moved =>
      rw [interpret_of_silent Watcher.observes_idle hdraw rfl]
      rw [Curve.drawAll_cons_of_ok hdraw]
      exact ih moved

theorem drawn_idle (c : Curve) (word : List Symbol) :
    drawn c Watcher.idle () word = ((), (c.turtleAfter word).map Turtle.path) := by
  unfold drawn
  cases hplace : c.place .fresh with
  | error fault =>
    rw [Curve.turtleAfter_of_error hplace]
    rfl
  | ok t =>
    rw [Curve.turtleAfter_of_ok hplace]
    dsimp
    rw [interpret_idle]

theorem render_idle {depth : Nat} (h : (Subject.curve c).check = .ok depth) (e : Engine) :
    (e.render Watcher.idle () (.curve c)).result
      =
    (c.turtleAfter (c.expansion depth)).map Turtle.path := by
  rw [render_of_check_ok h]
  unfold outcomeOf
  rw [drawn_idle]

/-- What a log shows of a drawing, which ends as given. -/
structure Overseen (c : Curve) (word : List Symbol) (log : List Notice) (result : Result Turtle) :
    Prop where
  phase_eq : ∀ notice ∈ log, notice.phase = .interpreting
  turtle_eq : ∀ k notice, log[k]? = some notice →
    c.turtleAfter (word.take (k + 1)) = .ok notice.turtle
  of_answer : ∀ k notice fault, log[k]? = some notice → notice.answer = some fault →
    log.map Notice.symbol = word.take (k + 1) ∧ result = .error fault
  of_silent : (∀ notice ∈ log, notice.answer = none) → result = c.turtleAfter word
  symbols_of_ok : ∀ t, result = .ok t → log.map Notice.symbol = word

theorem overseen_of_told {t : Turtle} {word : List Symbol} {log : List Notice}
    {result : Result Turtle} (hplace : c.place .fresh = .ok t)
    (h : Told c .interpreting t word log result) :
    Overseen c word log result where
  phase_eq := h.phase_eq
  turtle_eq := by
    intro k notice hk
    rw [Curve.turtleAfter_of_ok hplace]
    exact h.drawAll_take hk
  of_answer := by
    intro k notice fault hk hanswer
    exact h.of_answer hk hanswer
  of_silent := by
    intro hsilent
    rw [Curve.turtleAfter_of_ok hplace]
    exact h.result_of_silent hsilent
  symbols_of_ok := by
    intro moved hresult
    exact h.symbols_of_ok hresult

theorem overseen_of_unplaced {fault : Fault} (hplace : c.place .fresh = .error fault)
    (word : List Symbol) :
    Overseen c word [] (.error fault) where
  phase_eq := by simp
  turtle_eq := by simp
  of_answer := by simp
  of_silent := by
    intro _
    exact (Curve.turtleAfter_of_error hplace word).symm
  symbols_of_ok := by simp

theorem exists_overseen (hwatcher : watcher.Observes) (notes : ω) (word : List Symbol) :
    ∃ noted log result,
      drawn c watcher notes word = (noted, result.map Turtle.path)
        ∧
      drawn c watcher.logged (notes, []) word = ((noted, log), result.map Turtle.path)
        ∧
      Overseen c word log result := by
  unfold drawn
  cases hplace : c.place .fresh with
  | error fault => exact ⟨notes, [], .error fault, rfl, rfl, overseen_of_unplaced hplace word⟩
  | ok t =>
    obtain ⟨noted, log, result, hplain, hlogged, htold⟩ :=
      exists_told hwatcher .interpreting notes [] t word
    rw [List.nil_append] at hlogged
    refine ⟨noted, log, result, ?_, ?_, overseen_of_told hplace htold⟩
    . dsimp
      rw [hplain]
    . dsimp
      rw [hlogged]

/--
A watcher that only observes is told of every symbol of the expansion in turn, right after it was drawn
and while the engine interprets. The first fault that it answers is the last thing that it is told of and
ends the render. If it answers none, the render is the one with nobody looking on: it ends with what the
whole expansion draws.
-/
theorem watched_render (c : Curve) (depth : Nat) (hdepth : c.depth = .int depth)
    (watcher : Watcher ω) (hwatcher : watcher.Observes) (e : Engine) (notes : ω) :
    ∃ word, c.expand (.int depth) = .ok word ∧
      let outcome := e.render watcher.logged (notes, []) (.curve c)
      let log := outcome.notes.2
      e.render watcher notes (.curve c) = ⟨outcome.engine, outcome.notes.1, outcome.result⟩ ∧
      outcome.engine.lastLength = word.length ∧
      (∀ notice ∈ log, notice.phase = .interpreting) ∧
      (∀ k notice, log[k]? = some notice →
        c.turtleAfter (word.take (k + 1)) = .ok notice.turtle) ∧
      (∀ k notice fault, log[k]? = some notice → notice.answer = some fault →
        log.map Notice.symbol = word.take (k + 1) ∧ outcome.result = .error fault ∧
          outcome.engine.phase = .interpreting) ∧
      ((∀ notice ∈ log, notice.answer = none) →
        outcome.result = (e.render Watcher.idle () (.curve c)).result ∧
        match c.turtleAfter word with
        | .ok t =>
          log.map Notice.symbol = word ∧ outcome.result = .ok t.path ∧ outcome.engine.phase = .done
        | .error fault =>
          outcome.result = .error fault ∧ outcome.engine.phase = .interpreting) := by
  have hcheck : (Subject.curve c).check = .ok depth := Count.forCurve_eq_ok_iff.2 hdepth
  obtain ⟨noted, log, result, hplain, hlogged, hseen⟩ :=
    exists_overseen (c := c) hwatcher notes (c.expansion depth)
  refine ⟨c.expansion depth, c.expand_int depth, ?_⟩
  rw [render_of_check_ok hcheck, render_of_check_ok hcheck]
  rw [render_idle hcheck]
  simp only [outcomeOf, hplain, hlogged]
  refine ⟨trivial, trivial, hseen.phase_eq, hseen.turtle_eq, ?_, ?_⟩
  . intro k notice fault hk hanswer
    obtain ⟨hsymbols, rfl⟩ := hseen.of_answer k notice fault hk hanswer
    exact ⟨hsymbols, rfl, rfl⟩
  . intro hsilent
    obtain rfl := hseen.of_silent hsilent
    refine ⟨rfl, ?_⟩
    cases hturtle : c.turtleAfter (c.expansion depth) with
    | error fault => exact ⟨rfl, rfl⟩
    | ok t => exact ⟨hseen.symbols_of_ok t hturtle, rfl, rfl⟩

def shoots : Script where
  name := "Shoots"
  alphabetName := "Sym"
  tokens := ["A", "B"]
  seed := ["A"]
  productions := [("A", ["A", "B", "A"])]
  moves := [("A", [.forward 1]), ("B", [.turn 1, .forward 1])]
  opening := []
  limit := none
  fixedDepth := some (.int 2)

theorem shoots_closed : shoots.definition.grammar.Closed := by
  rw [← Grammar.fault?_eq_none_iff]
  decide +kernel

theorem watched_render_shoots :
    let c : Curve := ⟨shoots.definition, 5, shoots_closed⟩
    let watcher : Watcher Nat :=
      { notice := fun calls _ _ _ => (calls + 1, if calls = 2 then some .watcher else none) }
    let stopped := ({} : Engine).render watcher.logged (0, []) (.curve c)
    let quiet := ({} : Engine).render Watcher.idle.logged ((), []) (.curve c)
    (c.depth = .int 2 ∧ watcher.Observes ∧ (Watcher.idle).Observes) ∧
      (∃ notice, stopped.notes.2[2]? = some notice ∧ notice.answer = some .watcher ∧
        stopped.notes.2.map Notice.symbol = (c.expansion 2).take 3 ∧
        stopped.result = .error .watcher) ∧
      (∀ notice ∈ quiet.notes.2, notice.answer = none) ∧
      ∃ t, c.turtleAfter (c.expansion 2) = .ok t ∧
        quiet.notes.2.map Notice.symbol = c.expansion 2 ∧ quiet.result = .ok t.path := by
  intro c watcher stopped quiet
  have hdepth : c.depth = .int 2 := rfl
  have hwatcher : watcher.Observes := fun _ _ _ _ => rfl
  refine ⟨⟨hdepth, hwatcher, Watcher.observes_idle⟩, ?_, ?_⟩
  . obtain ⟨notice, hnotice, hanswer⟩ :
        ∃ notice, stopped.notes.2[2]? = some notice ∧ notice.answer = some .watcher :=
      ⟨_, rfl, rfl⟩
    obtain ⟨word, hword, _, _, _, _, hraised, _⟩ :=
      watched_render c 2 hdepth watcher hwatcher {} 0
    obtain rfl := Except.ok.inj ((c.expand_int 2).symm.trans hword)
    obtain ⟨hsymbols, hresult, _⟩ := hraised 2 notice .watcher hnotice hanswer
    exact ⟨notice, hnotice, hanswer, hsymbols, hresult⟩
  . have hanswers : quiet.notes.2.map Notice.answer = List.replicate 7 none := rfl
    have hsilent : ∀ notice ∈ quiet.notes.2, notice.answer = none := by
      intro notice hnotice
      apply List.eq_of_mem_replicate (n := 7)
      rw [← hanswers]
      exact List.mem_map_of_mem hnotice
    obtain ⟨word, hword, _, _, _, _, _, hquiet⟩ :=
      watched_render c 2 hdepth Watcher.idle Watcher.observes_idle {} ()
    obtain rfl := Except.ok.inj ((c.expand_int 2).symm.trans hword)
    obtain ⟨t, ht⟩ : ∃ t, c.turtleAfter (c.expansion 2) = .ok t := ⟨_, rfl⟩
    have hdrawn := (hquiet hsilent).2
    rw [ht] at hdrawn
    exact ⟨hsilent, t, ht, hdrawn.1, hdrawn.2.1⟩

end Engine
end TurtleCurves
