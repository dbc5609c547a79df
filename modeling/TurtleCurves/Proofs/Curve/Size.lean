import TurtleCurves.Proofs.Curve.Heading
import TurtleCurves.Proofs.Curve.Lattice
import TurtleCurves.Proofs.Engine.Watching

/-!
This module contains the sizes of the curves of each pattern: how long their expansions are, and in how
many segments they are drawn. The turtle never jumps after it was placed, so what is drawn is a single
polyline with one segment for each step.
-/

namespace TurtleCurves

theorem Path.size_extendTo {α : Type} (path : Path α) (p : Point α) :
    (path.extendTo p).polylines.size = path.polylines.size := by
  simp [extendTo]

namespace Pattern

variable {p : Pattern} {n : Nat} {c : Curve} {t : Turtle} {s : Symbol} {word : List Symbol}
variable {x : Float} {fault : Fault}

theorem double_eq_error (h : double n = .error fault) : fault = .overflow := by
  unfold double at h
  split at h
  . cases h
  . cases h
    rfl

theorem step_eq_error (h : p.step n = .error fault) : fault = .overflow := by
  unfold step at h
  cases hdouble : double n with
  | error cause =>
    rw [hdouble] at h
    cases h
    exact double_eq_error hdouble
  | ok scale =>
    rw [hdouble] at h
    simp only [bind, Except.bind] at h
    split at h
    . cases h
      rfl
    . cases h

theorem step_of_finite {scale : Float} (hscale : double n = .ok scale)
    (hpower : (p.factor.pow scale).isInf = false) :
    p.step n = .ok (1 / p.factor.pow scale) := by
  unfold step
  rw [hscale]
  simp only [bind, Except.bind]
  rw [if_neg (by simp [hpower])]
  rfl

theorem draw_eq (hc : c.definition = p.definition) (s : Symbol) (t : Turtle) :
    c.draw s t = p.draw c.iterations s t := by
  unfold Curve.draw
  rw [hc]
  rfl

theorem place_eq (hc : c.definition = p.definition) (t : Turtle) :
    c.place t = p.place c.iterations t := by
  unfold Curve.place
  rw [hc]
  rfl

theorem step_eq_of_definition (hc : c.definition = p.definition) : c.step = p.step c.iterations := by
  unfold Curve.step
  rw [hc]
  rfl

theorem draw_of_forward (hs : p.motion? s = some .forward) (n : Nat) (t : Turtle) :
    p.draw n s t = (p.step n).map t.forward := by
  unfold draw
  rw [hs]
  cases p.step n <;> rfl

theorem exists_draw_of_not_forward (hs : p.motion? s ≠ none) (hforward : p.motion? s ≠ some .forward)
    (n : Nat) (t : Turtle) :
    ∃ moved, p.draw n s t = .ok moved ∧ moved.path = t.path := by
  unfold draw
  cases hmotion : p.motion? s with
  | none => exact absurd hmotion hs
  | some motion =>
    cases motion with
    | forward => exact absurd hmotion hforward
    | turn degrees => exact ⟨_, rfl, rfl⟩
    | rest => exact ⟨t, rfl, rfl⟩

theorem exists_drawAll (hc : c.definition = p.definition) (hstep : p.step c.iterations = .ok x)
    (hword : ∀ s ∈ word, p.motion? s ≠ none) {q : Point Float} (hend : t.path.end? = some q)
    (heading : Int) :
    ∃ moved, c.drawAll t word = .ok moved ∧
      moved.path.polylines.size = t.path.polylines.size ∧
      moved.path.segmentCount = t.path.segmentCount + (p.headings heading word).length := by
  induction word generalizing t q heading with
  | nil => exact ⟨t, rfl, rfl, rfl⟩
  | cons s rest ih =>
    have hrest : ∀ s ∈ rest, p.motion? s ≠ none := fun s hs => hword s (List.mem_cons_of_mem _ hs)
    have hdraw := draw_eq hc s t
    by_cases hs : p.motion? s = some .forward
    . rw [draw_of_forward hs, hstep] at hdraw
      have hbegun := Path.polylines_ne_of_end? hend
      have hahead : (t.forward x).path.end? = some (t.ahead x) := Path.end?_extendTo hbegun _
      have hdrawn : (t.forward x).path.segments = t.path.segments ++ [(q, t.ahead x)] :=
        Path.segments_extendTo hend _
      obtain ⟨moved, hmoved, hsize, hcount⟩ := ih hrest hahead heading
      refine ⟨moved, ?_, ?_, ?_⟩
      . rw [Curve.drawAll_cons_of_ok hdraw]
        exact hmoved
      . rw [hsize]
        exact Path.size_extendTo t.path (t.ahead x)
      . rw [hcount]
        rw [headings_of_forward hs, List.length_cons]
        rw [Path.segmentCount_eq (t.forward x).path, hdrawn, Path.segmentCount_eq t.path]
        rw [List.length_append, List.length_singleton]
        omega
    . obtain ⟨turned, hturned, hpath⟩ :=
        exists_draw_of_not_forward (hword s List.mem_cons_self) hs c.iterations t
      rw [hturned] at hdraw
      rw [← hpath] at hend
      obtain ⟨moved, hmoved, hsize, hcount⟩ := ih hrest hend (heading + p.turnOf s)
      refine ⟨moved, ?_, ?_, ?_⟩
      . rw [Curve.drawAll_cons_of_ok hdraw]
        exact hmoved
      . rw [hsize, hpath]
      . rw [hcount, hpath]
        rw [headings, if_neg hs, List.nil_append]

theorem drawAll_of_step_error (hc : c.definition = p.definition)
    (hstep : p.step c.iterations = .error fault) (hword : ∀ s ∈ word, p.motion? s ≠ none)
    {heading : Int} (hheadings : p.headings heading word ≠ []) :
    c.drawAll t word = .error fault := by
  induction word generalizing t heading with
  | nil => exact absurd rfl hheadings
  | cons s rest ih =>
    have hrest : ∀ s ∈ rest, p.motion? s ≠ none := fun s hs => hword s (List.mem_cons_of_mem _ hs)
    have hdraw := draw_eq hc s t
    by_cases hs : p.motion? s = some .forward
    . rw [draw_of_forward hs, hstep] at hdraw
      rw [Curve.drawAll_cons_of_error hdraw]
    . obtain ⟨turned, hturned, _⟩ :=
        exists_draw_of_not_forward (hword s List.mem_cons_self) hs c.iterations t
      rw [hturned] at hdraw
      rw [headings, if_neg hs, List.nil_append] at hheadings
      rw [Curve.drawAll_cons_of_ok hdraw]
      exact ih hrest hheadings

theorem turtleAfter_of_step_ok (hc : c.definition = p.definition) (hp : p.Placeable)
    (hstep : p.step c.iterations = .ok x) (hword : ∀ s ∈ word, p.motion? s ≠ none) :
    ∃ t, c.turtleAfter word = .ok t ∧ t.path.polylines.size = 1 ∧
      t.path.segmentCount = (p.headings 0 word).length := by
  cases hheading : p.heading c.iterations with
  | error fault =>
    rw [hp.heading _ _ hheading] at hstep
    cases hstep
  | ok heading =>
    -- The polyline that a fresh turtle begins at the origin is given up when it is placed.
    have hplace : c.place .fresh = .ok ((Turtle.fresh.jumpTo p.start).face heading) := by
      rw [place_eq hc, place, hheading]
      rfl
    have hend : ((Turtle.fresh.jumpTo p.start).face heading).path.end? = some p.start :=
      Path.end?_beginAt _ _
    rw [Curve.turtleAfter_of_ok hplace]
    obtain ⟨moved, hmoved, hsize, hcount⟩ := exists_drawAll hc hstep hword hend 0
    refine ⟨moved, hmoved, hsize, ?_⟩
    rw [hcount]
    exact Nat.zero_add _

theorem turtleAfter_of_step_error (hc : c.definition = p.definition) (hp : p.Placeable)
    (hstep : p.step c.iterations = .error fault) (hword : ∀ s ∈ word, p.motion? s ≠ none)
    (hheadings : p.headings 0 word ≠ []) :
    c.turtleAfter word = .error fault := by
  cases hheading : p.heading c.iterations with
  | error cause =>
    have hplace : c.place .fresh = .error cause := by
      rw [place_eq hc, place, hheading]
      rfl
    rw [Curve.turtleAfter_of_error hplace]
    rw [hp.heading _ _ hheading] at hstep
    cases hstep
    rfl
  | ok heading =>
    have hplace : c.place .fresh = .ok ((Turtle.fresh.jumpTo p.start).face heading) := by
      rw [place_eq hc, place, hheading]
      rfl
    rw [Curve.turtleAfter_of_ok hplace]
    exact drawAll_of_step_error hc hstep hword hheadings

/--
What becomes of the curve with an iteration count. It is expanded to so many symbols, and if its steps
have a length, every engine draws it as one polyline of so many segments. Else no engine draws it.
-/
def Renders (p : Pattern) (n length segments : Nat) : Prop :=
  ∃ c word, p.definition.curve (.int n) = .ok c ∧ c.expand c.depth = .ok word ∧
    word.length = length ∧
    ∀ e : Engine,
      (c.step = .error .overflow ∧
        (e.render Watcher.idle () (.curve c)).result = .error .overflow) ∨
      ∃ x path, c.step = .ok x ∧ (e.render Watcher.idle () (.curve c)).result = .ok path ∧
        path.polylines.size = 1 ∧ path.segmentCount = segments

def IsDrawn (p : Pattern) (n segments : Nat) : Prop :=
  ∃ c, p.definition.curve (.int n) = .ok c ∧ ∀ e : Engine,
    ∃ path, (e.render Watcher.idle () (.curve c)).result = .ok path ∧ path.segmentCount = segments

/--
A curve is drawn if the power that its steps are divided by is finite. The power of doubles is the one of the
machine, of which nothing else is known here.
-/
theorem Renders.isDrawn {length segments : Nat} (h : p.Renders n length segments) {scale : Float}
    (hscale : double n = .ok scale) (hpower : (p.factor.pow scale).isInf = false) :
    p.IsDrawn n segments := by
  obtain ⟨c, word, hc, _, _, hrender⟩ := h
  obtain ⟨hdefinition, hcount, _⟩ := Definition.curve_eq_ok hc
  obtain rfl : n = c.iterations := Int.ofNat.inj (Value.int.inj hcount)
  refine ⟨c, hc, fun e => ?_⟩
  rcases hrender e with ⟨hoverflow, _⟩ | ⟨_, path, _, hpath, _, hsegments⟩
  . rw [step_eq_of_definition hdefinition, step_of_finite hscale hpower] at hoverflow
    cases hoverflow
  . exact ⟨path, hpath, hsegments⟩

theorem Placeable.renders (hp : p.Placeable) {length segments : Nat} (hword : p.word n = .ok word)
    (hlength : word.length = length) (hheadings : (p.headings 0 word).length = segments)
    (hpos : 0 < segments) :
    p.Renders n length segments := by
  have hletters := motion?_ne_none_of_word hp.closed hp.letters hword
  let c : Curve := ⟨p.definition, n, hp.closed⟩
  obtain rfl : c.expansion n = word := by
    rw [word_eq hp.closed] at hword
    exact Except.ok.inj hword
  have hcheck : (Subject.curve c).check = .ok n := Count.forCurve_eq_ok_iff.2 rfl
  refine ⟨c, c.expansion n, curve_eq hp.closed n, c.expand_int n, hlength, ?_⟩
  intro e
  rw [Engine.render_idle hcheck, step_eq_of_definition rfl]
  cases hstep : p.step c.iterations with
  | error fault =>
    have hsome : p.headings 0 (c.expansion n) ≠ [] := by
      rw [← List.length_pos_iff]
      exact hheadings ▸ hpos
    obtain rfl := step_eq_error hstep
    rw [turtleAfter_of_step_error rfl hp hstep hletters hsome]
    exact .inl ⟨rfl, rfl⟩
  | ok x =>
    obtain ⟨t, ht, hsize, hcount⟩ := turtleAfter_of_step_ok rfl hp hstep hletters
    rw [ht]
    exact .inr ⟨x, t.path, rfl, rfl, hsize, hcount.trans hheadings⟩

end Pattern

theorem Pattern.Spiked.length_grown {p : Pattern} {base left right : Symbol} {degrees : Int}
    (h : p.Spiked base left right degrees) (n : Nat) :
    3 * (p.grown n base).length + 4 = 7 * 4 ^ n := by
  induction n with
  | zero => rfl
  | succ n ih =>
    rw [h.grown_succ]
    simp only [List.length_append, List.length_cons, pow_succ]
    omega

theorem length_polygon (sides : Nat) (corner : Int) (side : List Int) :
    (polygon sides corner side).length = sides * side.length := by
  simp [polygon]

theorem Dragon.length_headings_word (n : Nat) :
    (pattern.headings 0 (F :: pattern.grown n X)).length = 2 ^ n := by
  have hlength := congrArg List.length (legs_word n)
  simpa [Pattern.legs] using hlength

theorem Levy.length_grown (n : Nat) : (pattern.grown n F).length + 4 = 5 * 2 ^ n := by
  induction n with
  | zero => rfl
  | succ n ih =>
    rw [grown_F]
    simp only [List.length_append, List.length_cons, List.length_nil, pow_succ]
    omega

theorem Dragon.length_grown (n : Nat) :
    (pattern.grown n X).length + 3 = 4 * 2 ^ n ∧ (pattern.grown n Y).length + 3 = 4 * 2 ^ n := by
  induction n with
  | zero => exact ⟨rfl, rfl⟩
  | succ n ih =>
    rw [grown_X, grown_Y]
    simp only [List.length_append, List.length_cons, List.length_nil, pow_succ]
    omega

theorem Cesaro.renders (n : Nat) :
    pattern.Renders n (4 * 4 ^ n + 4 + 16 * (4 ^ n - 1) / 3) (4 * 4 ^ n) := by
  have hfour : 0 < 4 ^ n := Nat.pow_pos (by decide)
  have hside := spiked.length_grown n
  apply placeable.renders (word_eq n)
  . simp only [List.length_append, List.length_cons, List.length_nil]
    omega
  . rw [headings_word n (word_eq n)]
    rw [length_polygon, spiked.length_headings]
  . omega

theorem Koch.renders (n : Nat) : pattern.Renders n (7 * 4 ^ n) (3 * 4 ^ n) := by
  have hfour : 0 < 4 ^ n := Nat.pow_pos (by decide)
  have hside := spiked.length_grown n
  apply placeable.renders (word_eq n)
  . simp only [List.length_append, List.length_cons]
    omega
  . rw [headings_word n (word_eq n)]
    rw [length_polygon, spiked.length_headings]
  . omega

theorem Levy.renders (n : Nat) : pattern.Renders n (5 * 2 ^ n - 4) (2 ^ n) := by
  have hword := length_grown n
  apply placeable.renders (word_eq n)
  . omega
  . exact branches.length_headings n 0
  . exact Nat.two_pow_pos n

theorem Dragon.renders (n : Nat) : pattern.Renders n (4 * 2 ^ n - 2) (2 ^ n) := by
  have hword := (length_grown n).1
  apply placeable.renders (word_eq n)
  . rw [List.length_cons]
    omega
  . exact length_headings_word n
  . exact Nat.two_pow_pos n

/--
How long the expansions of the four families are at each depth, and in how many segments their curves are
drawn.
-/
theorem built_in_sizes (n : Nat) :
    Cesaro.pattern.Renders n (4 * 4 ^ n + 4 + 16 * (4 ^ n - 1) / 3) (4 * 4 ^ n) ∧
      Koch.pattern.Renders n (7 * 4 ^ n) (3 * 4 ^ n) ∧
      Levy.pattern.Renders n (5 * 2 ^ n - 4) (2 ^ n) ∧
      Dragon.pattern.Renders n (4 * 2 ^ n - 2) (2 ^ n) :=
  ⟨Cesaro.renders n, Koch.renders n, Levy.renders n, Dragon.renders n⟩

/-- What is left to assume of the third pass is that the powers of the machine are finite. -/
example (h : (Levy.pattern.factor.pow 3).isInf = false) : Levy.pattern.IsDrawn 3 8 :=
  (Levy.renders 3).isDrawn rfl h

end TurtleCurves
