import TurtleCurves.Curve.Cesaro
import TurtleCurves.Curve.Koch
import TurtleCurves.Curve.Levy
import TurtleCurves.Proofs.Curve.Course
import TurtleCurves.Proofs.Engine
import TurtleCurves.Proofs.Turtle.Pen

/-!
This module contains the plotting of patterns over any arithmetic. What an engine renders on doubles is
the plot on doubles, so a plot over numbers that do not round is the same drawing without its errors.
-/

namespace TurtleCurves

open Trigonometry

/-- Where the plots of a pattern begin, and by what their steps shrink. -/
structure Layout (α : Type) where
  factor : α
  start : Point α
  heading : Nat → α

section Plots

variable {α : Type} [Add α] [Mul α] [Div α] [Trigonometry α]

namespace Layout

def step (l : Layout α) (iterations : Nat) : α :=
  ofInt 1 / power l.factor iterations

def place (l : Layout α) (iterations : Nat) : Pen α :=
  (Pen.fresh.jumpTo l.start).face (l.heading iterations)

end Layout

namespace Pattern

def drawWith (p : Pattern) (step : α) (pen : Pen α) (s : Symbol) : Result (Pen α) :=
  match p.motion? s with
  | some .forward => .ok (pen.forward step)
  | some (.turn degrees) => .ok (pen.turnDegrees degrees)
  | some .rest => .ok pen
  | none => .error (.undrawnSymbol s)

def follow (p : Pattern) (step : α) : Pen α → List Symbol → Result (Pen α)
  | pen, [] => .ok pen
  | pen, s :: rest =>
    match p.drawWith step pen s with
    | .error fault => .error fault
    | .ok pen => p.follow step pen rest

def plot (p : Pattern) (l : Layout α) (iterations : Nat) (word : List Symbol) : Result (Pen α) :=
  p.follow (l.step iterations) (l.place iterations) word

theorem exists_follow {p : Pattern} {word : List Symbol} (hword : ∀ s ∈ word, p.motion? s ≠ none)
    (step : α) (pen : Pen α) :
    ∃ moved, p.follow step pen word = .ok moved := by
  induction word generalizing pen with
  | nil => exact ⟨pen, rfl⟩
  | cons s rest ih =>
    have hrest : ∀ s ∈ rest, p.motion? s ≠ none := fun t ht => hword t (List.mem_cons_of_mem s ht)
    have hs : ∃ next, p.drawWith step pen s = .ok next := by
      unfold drawWith
      cases hmotion : p.motion? s with
      | none => exact absurd hmotion (hword s List.mem_cons_self)
      | some motion => cases motion <;> exact ⟨_, rfl⟩
    obtain ⟨next, hnext⟩ := hs
    obtain ⟨moved, hmoved⟩ := ih hrest next
    refine ⟨moved, ?_⟩
    simp only [follow, hnext, hmoved]

end Pattern

variable [Neg α]

def Cesaro.layout : Layout α :=
  ⟨ofInt 22 / ofInt 10, ⟨ofInt 0, ofInt (-1) / ofInt 2⟩, fun _ => ofInt 0⟩

def Koch.layout : Layout α :=
  ⟨ofInt 3, ⟨ofInt (-1) / ofInt 2, sqrt (ofInt 3) / ofInt 6⟩, fun _ => ofInt 0⟩

def Levy.layout : Layout α :=
  ⟨sqrt (ofInt 2), ⟨ofInt 0, ofInt 0⟩, fun _ => ofInt 0⟩

def Dragon.layout : Layout α :=
  ⟨sqrt (ofInt 2), ⟨ofInt 0, ofInt 0⟩, fun n => -ofInt n * halfTurn / ofInt 4⟩

end Plots

structure Layout.Fits (l : Layout Float) (p : Pattern) : Prop where
  factor_eq : p.factor = l.factor
  start_eq : p.start = l.start
  heading_eq : ∀ n x, p.heading n = .ok x → x = l.heading n

theorem Cesaro.layout_fits : Layout.Fits Cesaro.layout Cesaro.pattern where
  factor_eq := by decide +kernel
  start_eq := by decide +kernel
  heading_eq := by
    intro n x h
    cases h
    rfl

theorem Koch.layout_fits : Layout.Fits Koch.layout Koch.pattern where
  factor_eq := rfl
  start_eq := by
    have hx : (-0.5 : Float) = Float.ofInt (-1) / Float.ofInt 2 := by decide +kernel
    simp only [Koch.pattern, Koch.layout, hx]
    rfl
  heading_eq := by
    intro n x h
    cases h
    rfl

theorem Levy.layout_fits : Layout.Fits Levy.layout Levy.pattern where
  factor_eq := rfl
  start_eq := rfl
  heading_eq := by
    intro n x h
    cases h
    rfl

namespace Pattern

variable {p : Pattern} {l : Layout Float} {n : Nat} {x : Float}

theorem double_eq_ok (h : double n = .ok x) : x = Float.ofInt n := by
  unfold double Number.toFloat? at h
  dsimp at h
  split at h
  . next value hvalue =>
    split at hvalue
    . cases hvalue
    . cases hvalue
      cases h
      rfl
  . cases h

theorem interpret_idle {c : Curve} (hc : c.definition = p.definition)
    (hstep : p.step c.iterations = .ok x) (phase : Phase) (pen : Pen Float) (word : List Symbol) :
    Engine.interpret c Watcher.idle phase () pen.toTurtle word
      =
    ((), (p.follow x pen word).map Pen.toTurtle) := by
  induction word generalizing pen with
  | nil => rfl
  | cons s rest ih =>
    have hdraw : c.draw s pen.toTurtle = (p.drawWith x pen s).map Pen.toTurtle := by
      simp only [Curve.draw, hc, definition, draw, drawWith]
      cases p.motion? s with
      | none => rfl
      | some motion =>
        cases motion with
        | forward =>
          rw [hstep]
          exact congrArg Except.ok (pen.toTurtle_forward x).symm
        | turn degrees => exact congrArg Except.ok (pen.toTurtle_turnDegrees degrees).symm
        | rest => rfl
    unfold Engine.interpret follow
    rw [hdraw]
    cases p.drawWith x pen s with
    | error fault => rfl
    | ok moved => exact ih moved

theorem step_eq (hfits : l.Fits p) (h : p.step n = .ok x) : x = l.step n := by
  unfold step at h
  cases hdouble : double n with
  | error fault =>
    rw [hdouble] at h
    cases h
  | ok scale =>
    rw [hdouble] at h
    rw [double_eq_ok hdouble, hfits.factor_eq] at h
    simp only [bind, Except.bind] at h
    split at h
    . cases h
    . cases h
      rfl

theorem render_eq_plot (hfits : l.Fits p) (hclosed : p.grammar.Closed) {heading : Float}
    (hstep : p.step n = .ok x) (hheading : p.heading n = .ok heading) (e : Engine) :
    let c : Curve := ⟨p.definition, n, hclosed⟩
    (e.render Watcher.idle () (.curve c)).result
      =
    (p.plot l n (c.expansion n)).map Pen.path := by
  intro c
  have hcheck : (Subject.curve c).check = .ok n := Count.forCurve_eq_ok_iff.2 rfl
  have hplace : c.place .fresh = .ok (l.place n).toTurtle := by
    change p.place n .fresh = _
    unfold place
    rw [hheading, hfits.heading_eq n heading hheading, hfits.start_eq]
    rw [Layout.place, Pen.toTurtle_face, Pen.toTurtle_jumpTo, Pen.toTurtle_fresh]
    rfl
  have hinterpret : Engine.interpret c Watcher.idle .interpreting () (l.place n).toTurtle (c.expansion n)
      = ((), (p.plot l n (c.expansion n)).map Pen.toTurtle) := by
    rw [step_eq hfits hstep] at hstep
    exact interpret_idle (c := c) rfl hstep .interpreting (l.place n) (c.expansion n)
  rw [Engine.render_of_check_ok hcheck]
  simp only [Engine.outcomeOf, Engine.drawn, hplace, hinterpret]
  cases p.plot l n (c.expansion n) with
  | error fault => rfl
  | ok pen => rfl

/-- Where the steps of the pattern have a length, every engine draws its curve as it is plotted in doubles. -/
def RendersPlot (p : Pattern) (l : Layout Float) : Prop :=
  ∀ n x word, p.step n = .ok x → p.word n = .ok word →
    ∃ c pen, p.definition.curve (.int n) = .ok c ∧ p.plot l n word = .ok pen ∧
      ∀ e : Engine, (e.render Watcher.idle () (.curve c)).result = .ok pen.path

theorem Placeable.rendersPlot (hp : p.Placeable) (hfits : l.Fits p) : p.RendersPlot l := by
  intro n x word hstep hword
  have hletters := motion?_ne_none_of_word hp.closed hp.letters hword
  obtain ⟨pen, hpen⟩ := exists_follow hletters (l.step n) (l.place n)
  refine ⟨_, pen, curve_eq hp.closed n, hpen, fun e => ?_⟩
  cases hheading : p.heading n with
  | error fault =>
    rw [hp.heading n fault hheading] at hstep
    cases hstep
  | ok heading =>
    obtain rfl := Except.ok.inj ((word_eq hp.closed n).symm.trans hword)
    rw [render_eq_plot hfits hp.closed hstep hheading e]
    exact congrArg (Except.map Pen.path) hpen

end Pattern

theorem Dragon.layout_fits : Layout.Fits Dragon.layout Dragon.pattern where
  factor_eq := rfl
  start_eq := rfl
  heading_eq := by
    intro n x h
    simp only [Dragon.pattern, Dragon.heading] at h
    cases hdouble : Pattern.double n with
    | error fault =>
      rw [hdouble] at h
      cases h
    | ok scale =>
      rw [hdouble, Pattern.double_eq_ok hdouble] at h
      cases h
      rfl

end TurtleCurves
