import TurtleCurves.Curve.Catalogue
import TurtleCurves.Proofs.Curve.Size
import TurtleCurves.Proofs.Path.Shared

/-!
This module contains how a curve is drawn by a turtle that has drawn before. Placing the turtle fixes where
it stands and where it heads, and what it draws from then on is a polyline of its own. So the earlier
drawing is neither seen in the new one nor touched by it.
-/

namespace TurtleCurves

namespace Turtle

variable {front : List (Array (Point Float))} {stroke : Array (Point Float)} {t u : Turtle}

/-- Two turtles stand alike and draw the same stroke, the first one behind polylines that are over. -/
structure Alike (front : List (Array (Point Float))) (stroke : Array (Point Float)) (t u : Turtle) :
    Prop where
  behind : t.path = .ofParts front stroke
  alone : u.path = .ofParts [] stroke
  position : t.position = u.position
  heading : t.heading = u.heading

theorem Alike.forward (h : Alike front stroke t u) (distance : Float) :
    Alike front (stroke.push (u.ahead distance)) (t.forward distance) (u.forward distance) := by
  have hahead : t.ahead distance = u.ahead distance := by
    unfold ahead
    rw [h.position, h.heading]
  refine ⟨?_, ?_, hahead, h.heading⟩
  . change t.path.extendTo (t.ahead distance) = _
    rw [h.behind, hahead]
    apply Path.extendTo_ofParts
  . change u.path.extendTo (u.ahead distance) = _
    rw [h.alone]
    apply Path.extendTo_ofParts

theorem Alike.turnDegrees (h : Alike front stroke t u) (degrees : Float) :
    Alike front stroke (t.turnDegrees degrees) (u.turnDegrees degrees) := by
  refine ⟨h.behind, h.alone, h.position, ?_⟩
  change Angle.reduce (t.heading + _) = Angle.reduce (u.heading + _)
  rw [h.heading]

end Turtle

namespace Pattern

variable {p : Pattern} {c : Curve} {front : List (Array (Point Float))} {stroke : Array (Point Float)}
variable {t u : Turtle} {s : Symbol} {word : List Symbol}

/-- Two drawings of a curve end alike, or both fail because its steps have no length. -/
inductive EndAlike (c : Curve) (front : List (Array (Point Float))) : Result Turtle → Result Turtle → Prop
  | drawn {stroke : Array (Point Float)} {t u : Turtle} :
    Turtle.Alike front stroke t u → EndAlike c front (.ok t) (.ok u)
  | overflown : c.step = .error .overflow → EndAlike c front (.error .overflow) (.error .overflow)

theorem EndAlike.bind {result other : Result Turtle} {next : Turtle → Result Turtle}
    (h : EndAlike c front result other)
    (hnext : ∀ stroke t u, Turtle.Alike front stroke t u → EndAlike c front (next t) (next u)) :
    EndAlike c front (result >>= next) (other >>= next) := by
  cases h with
  | drawn halike => exact hnext _ _ _ halike
  | overflown hstep => exact .overflown hstep

theorem endAlike_draw (hc : c.definition = p.definition) (hs : p.motion? s ≠ none)
    (h : Turtle.Alike front stroke t u) : EndAlike c front (c.draw s t) (c.draw s u) := by
  rw [draw_eq hc, draw_eq hc]
  unfold draw
  cases hmotion : p.motion? s with
  | none => exact absurd hmotion hs
  | some motion =>
    cases motion with
    | forward =>
      cases hstep : p.step c.iterations with
      | ok x => exact .drawn (h.forward x)
      | error fault =>
        obtain rfl := step_eq_error hstep
        exact .overflown ((step_eq_of_definition hc).trans hstep)
    | turn degrees => exact .drawn (h.turnDegrees _)
    | rest => exact .drawn h

theorem endAlike_drawAll (hc : c.definition = p.definition) (hword : ∀ s ∈ word, p.motion? s ≠ none)
    (h : Turtle.Alike front stroke t u) :
    EndAlike c front (c.drawAll t word) (c.drawAll u word) := by
  induction word generalizing t u stroke with
  | nil => exact .drawn h
  | cons s rest ih =>
    rw [List.forall_mem_cons] at hword
    unfold Curve.drawAll
    rw [List.foldlM_cons, List.foldlM_cons]
    apply (endAlike_draw hc hword.1 h).bind
    intro stroke t u hmoved
    exact ih hword.2 hmoved

theorem Placeable.endAlike_place (hp : p.Placeable) (hc : c.definition = p.definition) (ht : t.path.Tidy) :
    EndAlike c (t.path.polylines.toList.filter fun polyline => 2 ≤ polyline.size) (c.place t)
      (c.place .fresh) := by
  rw [place_eq hc, place_eq hc]
  unfold place
  cases hheading : p.heading c.iterations with
  | ok heading => exact .drawn ⟨ht.beginAt_eq p.start, rfl, rfl, rfl⟩
  | error fault =>
    have hstep := hp.heading _ _ hheading
    obtain rfl := step_eq_error hstep
    exact .overflown ((step_eq_of_definition hc).trans hstep)

theorem exists_placeable_of_builtIn {d : Definition} (h : d ∈ Catalogue.builtInDefinitions.map Prod.snd) :
    ∃ p : Pattern, p.Placeable ∧ d = p.definition := by
  simp only [Catalogue.builtInDefinitions, List.map_cons, List.map_nil, List.mem_cons, List.not_mem_nil,
    or_false] at h
  obtain rfl | rfl | rfl | rfl := h
  . exact ⟨_, Cesaro.placeable, rfl⟩
  . exact ⟨_, Koch.placeable, rfl⟩
  . exact ⟨_, Levy.placeable, rfl⟩
  . exact ⟨_, Dragon.placeable, rfl⟩

/--
A turtle that has drawn before, alone or with others, is placed for a built-in curve and draws letters of it.
Then it stands and heads as a fresh turtle does after the same letters, and has drawn the same polyline
behind every polyline with a segment that its path had. The word may be any beginning of a longer one, so
this is so after every letter. They fail only together, where the steps of the curve have no length.
-/
theorem place_forgets (c : Curve) (hc : c.definition ∈ Catalogue.builtInDefinitions.map Prod.snd)
    (acts : List Board.Act) (t : Turtle) (ht : t ∈ (Board.afterAll {} acts).turtles)
    (word : List Symbol) (hword : ∀ s ∈ word, s ∈ c.grammar.alphabet) :
    let again : Result Turtle := do c.drawAll (← c.place t) word
    (∃ drawn moved stroke, c.turtleAfter word = .ok drawn ∧ again = .ok moved ∧
      moved.position = drawn.position ∧ moved.heading = drawn.heading ∧
      drawn.path.polylines.toList = [stroke] ∧
      moved.path.polylines.toList
        = t.path.polylines.toList.filter (fun polyline => 2 ≤ polyline.size) ++ [stroke]) ∨
    (c.step = .error .overflow ∧ c.turtleAfter word = .error .overflow ∧ again = .error .overflow) := by
  intro again
  obtain ⟨p, hp, hdefinition⟩ := exists_placeable_of_builtIn hc
  have hletters : ∀ s ∈ word, p.motion? s ≠ none := by
    intro s hs
    apply hp.letters
    have hmem := hword s hs
    unfold Curve.grammar at hmem
    rw [hdefinition] at hmem
    exact hmem
  have hplace := hp.endAlike_place hdefinition (Board.tidy_of_mem ht)
  have hend : EndAlike c _ again (c.turtleAfter word) :=
    hplace.bind fun stroke t u => endAlike_drawAll hdefinition hletters
  generalize again = result at hend
  generalize c.turtleAfter word = other at hend
  cases hend with
  | @drawn stroke moved drawn halike =>
    refine .inl ⟨drawn, moved, stroke, rfl, rfl, halike.position, halike.heading, ?_, ?_⟩
    . rw [halike.alone]
      rfl
    . rw [halike.behind]
      rfl
  | overflown hstep => exact .inr ⟨hstep, rfl, rfl⟩

theorem place_forgets_dragon :
    let c : Curve := ⟨Dragon.pattern.definition, 3, Dragon.grammar_closed⟩
    let acts : List Board.Act := [.takeTurtle, .move 0 (.forward 2), .takeTurtle, .move 1 (.jump ⟨7, 8⟩),
      .move 0 (.forward 1), .move 0 (.turn 1), .move 0 (.jump ⟨3, 0⟩)]
    ∃ t ∈ (Board.afterAll {} acts).turtles,
      (∀ s ∈ c.expansion 2, s ∈ c.grammar.alphabet) ∧
      ((∃ drawn moved stroke, c.turtleAfter (c.expansion 2) = .ok drawn ∧
          (do c.drawAll (← c.place t) (c.expansion 2)) = .ok moved ∧
          moved.position = drawn.position ∧ moved.heading = drawn.heading ∧
          drawn.path.polylines.toList = [stroke] ∧
          moved.path.polylines.toList
            = t.path.polylines.toList.filter (fun polyline => 2 ≤ polyline.size) ++ [stroke]) ∨
        (c.step = .error .overflow ∧ c.turtleAfter (c.expansion 2) = .error .overflow ∧
          (do c.drawAll (← c.place t) (c.expansion 2)) = .error .overflow)) := by
  intro c acts
  have ht : (Board.afterAll {} acts).turtles[0] ∈ (Board.afterAll {} acts).turtles := List.getElem_mem _
  have hword := c.mem_alphabet_of_mem_expansion 2
  have hbuiltIn : c.definition ∈ Catalogue.builtInDefinitions.map Prod.snd := by
    simp [Catalogue.builtInDefinitions, c]
  exact ⟨_, ht, hword, place_forgets c hbuiltIn acts _ ht _ hword⟩

end Pattern
end TurtleCurves
