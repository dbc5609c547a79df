import Mathlib.Data.Int.Basic
import Mathlib.Data.List.Range
import Mathlib.Tactic.Ring
import TurtleCurves.Drawing.Raster

/-!
This module contains what is seen on a canvas. A stroke gives its color to the pixels it goes over and keeps
all others, so a pixel has the color of the last stroke that goes over it. A line that is not wider than a
pixel leads from its first to its last pixel by way of neighbors.
-/

namespace TurtleCurves

namespace Pixel

variable {p q : Pixel} {length steps step : Nat}

def Touches (p q : Pixel) : Prop :=
  (q.column - p.column).natAbs ≤ 1 ∧ (q.row - p.row).natAbs ≤ 1

structure Connects (p q : Pixel) (pixels : List Pixel) : Prop where
  first : pixels.head? = some p
  last : pixels.getLast? = some q
  touching : pixels.IsChain Touches

theorem progress_succ (h : length ≤ steps) (step : Nat) :
    progress length steps step ≤ progress length steps (step + 1) ∧
      progress length steps (step + 1) ≤ progress length steps step + 1 := by
  have hexpand : 2 * (step + 1) * length + steps = 2 * step * length + steps + 2 * length := by ring
  unfold progress
  rw [hexpand]
  constructor
  . exact Nat.div_le_div_right (Nat.le_add_right _ _)
  . obtain rfl | hpos := Nat.eq_zero_or_pos steps
    . simp
    calc
      (2 * step * length + steps + 2 * length) / (2 * steps)
          ≤ (2 * step * length + steps + 2 * steps) / (2 * steps) := by gcongr
      _ = (2 * step * length + steps) / (2 * steps) + 1 := Nat.add_div_right _ (by omega)

theorem between_stepsTo (p q : Pixel) : p.between q (p.stepsTo q) = q := by
  obtain hzero | hpos := Nat.eq_zero_or_pos (p.stepsTo q)
  . have hsame : p = q := by
      unfold stepsTo at hzero
      obtain ⟨a, b⟩ := p
      obtain ⟨c, d⟩ := q
      rw [Pixel.mk.injEq]
      dsimp only at hzero
      omega
    rw [hzero, between_zero, hsame]
  . obtain ⟨a, b⟩ := p
    obtain ⟨c, d⟩ := q
    simp only [between, progress_steps _ hpos, Int.sign_mul_natAbs, Pixel.mk.injEq]
    omega

theorem between_touches (p q : Pixel) (step : Nat) : (p.between q step).Touches (p.between q (step + 1)) := by
  have hside {length : Int} {steps : Nat} (h : length.natAbs ≤ steps) (start : Int) :
      ((start + length.sign * progress length.natAbs steps (step + 1)) -
        (start + length.sign * progress length.natAbs steps step)).natAbs ≤ 1 := by
    obtain ⟨hle, hge⟩ := progress_succ h step
    have hdiff : (start + length.sign * progress length.natAbs steps (step + 1)) -
        (start + length.sign * progress length.natAbs steps step) =
          length.sign *
            ((progress length.natAbs steps (step + 1) : Int) - progress length.natAbs steps step) := by
      ring
    have hsign : length.sign.natAbs ≤ 1 := by
      rw [Int.natAbs_sign]
      split <;> omega
    rw [hdiff, Int.natAbs_mul]
    exact Nat.mul_le_mul hsign (show _ ≤ 1 by omega)
  exact ⟨hside (le_max_left _ _) _, hside (le_max_right _ _) _⟩

theorem connects_lineTo (p q : Pixel) : p.Connects q (p.lineTo q) where
  first := by simp [lineTo, List.head?_range, between_zero]
  last := by simp [lineTo, List.getLast?_range, between_stepsTo]
  touching := by
    unfold lineTo
    rw [List.isChain_map, List.isChain_range]
    exact fun step _ => between_touches p q step

end Pixel

namespace Canvas

variable {c : Canvas} {brush : Brush} {strokes : List Stroke} {p q : Pixel}

def Has (c : Canvas) (p : Pixel) : Prop :=
  0 ≤ p.column ∧ p.column < c.width ∧ 0 ≤ p.row ∧ p.row < c.height

def colorAt? (c : Canvas) (p : Pixel) : Option Color :=
  (c.indexOf? p).bind fun i => c.pixels[i]?

theorem colorAt?_eq_none_iff : c.colorAt? p = none ↔ ¬ c.Has p := by
  unfold colorAt? indexOf? Has
  split
  . next h =>
    have hrow : (p.row.toNat + 1) * c.width ≤ c.height * c.width := Nat.mul_le_mul_right _ (by omega)
    have hlt : p.row.toNat * c.width + p.column.toNat < c.pixels.size := by
      rw [c.size_pixels, Nat.mul_comm c.width]
      rw [Nat.add_one_mul] at hrow
      omega
    simp [h, hlt]
  . next h => simp [h]

theorem indexOf?_injective {i : Nat} (hp : c.indexOf? p = some i) (hq : c.indexOf? q = some i) : p = q := by
  unfold indexOf? at hp hq
  rw [Option.ite_none_right_eq_some, Option.some.injEq] at hp hq
  obtain ⟨hp, rfl⟩ := hp
  obtain ⟨hq, hsame⟩ := hq
  have hwidth : 0 < c.width := by omega
  -- The column is what is left of an index by the width, and the row how often the width goes into it.
  have hcolumn := congrArg (· % c.width) hsame
  have hrow := congrArg (· / c.width) hsame
  simp only [Nat.add_comm _ (Int.toNat _), Nat.add_mul_mod_self_right] at hcolumn
  rw [Nat.mod_eq_of_lt (by omega), Nat.mod_eq_of_lt (by omega)] at hcolumn
  simp only [Nat.add_comm _ (Int.toNat _), Nat.add_mul_div_right _ _ hwidth] at hrow
  rw [Nat.div_eq_of_lt (by omega), Nat.div_eq_of_lt (by omega)] at hrow
  obtain ⟨column, row⟩ := p
  obtain ⟨column', row'⟩ := q
  rw [Pixel.mk.injEq]
  dsimp only at *
  omega

theorem colorAt?_plot (c : Canvas) (color : Color) (p q : Pixel) :
    (c.plot color p).colorAt? q = if q = p then (c.colorAt? q).map fun _ => color else c.colorAt? q := by
  unfold plot
  split
  . next i hi =>
    unfold colorAt?
    split
    . next heq =>
      subst heq
      change (c.indexOf? q).bind (fun j => (c.pixels.setIfInBounds i color)[j]?) = _
      rw [hi, Option.bind_some, Option.bind_some, Array.getElem?_setIfInBounds, if_pos rfl]
      split
      . next hlt => rw [Array.getElem?_eq_getElem hlt, Option.map_some]
      . next hge => rw [Array.getElem?_eq_none (by omega), Option.map_none]
    . next hne =>
      change (c.indexOf? q).bind (fun j => (c.pixels.setIfInBounds i color)[j]?) = _
      apply Option.bind_congr
      intro j hj
      rw [Array.getElem?_setIfInBounds, if_neg]
      rintro rfl
      exact hne (indexOf?_injective hj hi)
  . next hnone =>
    split
    . next heq =>
      subst heq
      simp [colorAt?, hnone]
    . rfl

theorem colorAt?_plotAll (c : Canvas) (color : Color) (pixels : List Pixel) (q : Pixel) :
    (c.plotAll color pixels).colorAt? q =
      if q ∈ pixels then (c.colorAt? q).map fun _ => color else c.colorAt? q := by
  unfold plotAll
  induction pixels generalizing c with
  | nil => simp
  | cons p pixels ih =>
    rw [List.foldl_cons, ih, colorAt?_plot]
    by_cases hp : q = p
    . subst hp
      by_cases hmem : q ∈ pixels <;> simp [hmem, Function.comp_def]
    . by_cases hmem : q ∈ pixels <;> simp [hp, hmem]

theorem colorAt?_stroke (brush : Brush) (c : Canvas) (s : Stroke) (q : Pixel) :
    (c.stroke brush s).colorAt? q =
      if q ∈ brush.trace s then (c.colorAt? q).map fun _ => s.color else c.colorAt? q :=
  colorAt?_plotAll c s.color (brush.trace s) q

theorem size_stroke (brush : Brush) (c : Canvas) (s : Stroke) :
    (c.stroke brush s).width = c.width ∧ (c.stroke brush s).height = c.height := by
  unfold stroke plotAll
  induction brush.trace s generalizing c with
  | nil => exact ⟨rfl, rfl⟩
  | cons p pixels ih =>
    have hplot : (c.plot s.color p).width = c.width ∧ (c.plot s.color p).height = c.height := by
      unfold plot
      split <;> exact ⟨rfl, rfl⟩
    rw [List.foldl_cons]
    exact ⟨(ih _).1.trans hplot.1, (ih _).2.trans hplot.2⟩

structure Shows (canvas ground : Canvas) (brush : Brush) (strokes : List Stroke) : Prop where
  width_eq : canvas.width = ground.width
  height_eq : canvas.height = ground.height
  /-- A pixel has the color of the last stroke that goes over it. -/
  drawn : ∀ before s after p, strokes = before ++ s :: after → p ∈ brush.trace s →
    (∀ t ∈ after, p ∉ brush.trace t) → ground.Has p → canvas.colorAt? p = some s.color
  /-- A pixel that no stroke goes over has the color that it had before. -/
  kept : ∀ p, (∀ s ∈ strokes, p ∉ brush.trace s) → canvas.colorAt? p = ground.colorAt? p
  /-- A stroke that is not wider than a pixel goes from the pixel of its start to that of its stop. -/
  connects : ∀ s ∈ strokes, s.width ≤ 1 → ∀ start stop, Pixel.ofPoint? s.start = some start →
    Pixel.ofPoint? s.stop = some stop → start.Connects stop (brush.trace s)

theorem colorAt?_foldl_of_not_mem (h : ∀ s ∈ strokes, q ∉ brush.trace s) :
    (strokes.foldl (stroke brush) c).colorAt? q = c.colorAt? q := by
  induction strokes generalizing c with
  | nil => rfl
  | cons s strokes ih =>
    rw [List.forall_mem_cons] at h
    rw [List.foldl_cons, ih h.2, colorAt?_stroke, if_neg h.1]

theorem size_foldl (brush : Brush) (c : Canvas) (strokes : List Stroke) :
    (strokes.foldl (stroke brush) c).width = c.width ∧ (strokes.foldl (stroke brush) c).height = c.height := by
  induction strokes generalizing c with
  | nil => exact ⟨rfl, rfl⟩
  | cons s strokes ih =>
    obtain ⟨hwidth, hheight⟩ := size_stroke brush c s
    rw [List.foldl_cons]
    exact ⟨(ih _).1.trans hwidth, (ih _).2.trans hheight⟩

end Canvas

theorem Brush.connects_trace (brush : Brush) {s : Stroke} {start stop : Pixel} (hwidth : s.width ≤ 1)
    (hstart : Pixel.ofPoint? s.start = some start) (hstop : Pixel.ofPoint? s.stop = some stop) :
    start.Connects stop (brush.trace s) := by
  unfold trace
  simp only [hstart, hstop]
  rw [brush.line_of_le_one start stop hwidth]
  exact start.connects_lineTo stop

theorem Raster.shows_canvas (r : Raster) (brush : Brush) : (r.canvas brush).Shows r.ground brush r.strokes where
  width_eq := (Canvas.size_foldl brush r.ground r.strokes).1
  height_eq := (Canvas.size_foldl brush r.ground r.strokes).2
  drawn before s after p hstrokes hp hafter hhas := by
    unfold canvas
    rw [hstrokes, List.foldl_append, List.foldl_cons]
    rw [Canvas.colorAt?_foldl_of_not_mem hafter, Canvas.colorAt?_stroke, if_pos hp]
    obtain ⟨hwidth, hheight⟩ := Canvas.size_foldl brush r.ground before
    have hsome : (before.foldl (Canvas.stroke brush) r.ground).colorAt? p ≠ none := by
      rw [Ne, Canvas.colorAt?_eq_none_iff, not_not]
      unfold Canvas.Has
      rwa [hwidth, hheight]
    obtain ⟨color, hcolor⟩ := Option.ne_none_iff_exists'.1 hsome
    rw [hcolor, Option.map_some]
  kept _ h := Canvas.colorAt?_foldl_of_not_mem h
  connects _ _ hwidth _ _ hstart hstop := brush.connects_trace hwidth hstart hstop

end TurtleCurves
