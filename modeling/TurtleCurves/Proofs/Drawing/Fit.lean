import Mathlib.Algebra.Order.Field.Rat
import Mathlib.Algebra.Order.Group.MinMax
import Mathlib.Tactic.FieldSimp
import Mathlib.Tactic.Linarith
import Mathlib.Tactic.Ring
import TurtleCurves.Drawing.Fit

/-!
This module contains the placing of drawings in exact arithmetic. Whichever sides of its box have a
length, a drawing is scaled as far as the frame allows and stays between the margins, and the computation
has no quotient by zero.
-/

namespace TurtleCurves

/-- Scales both axes alike, turns the vertical one around and moves the plane. -/
def Point.flipped (scale : Rat) (shift p : Point Rat) : Point Rat :=
  ⟨shift.x + scale * p.x, shift.y - scale * p.y⟩

namespace Box

variable {box : Box Rat} {p q : Point Rat} {scale : Rat}

structure Holds (box : Box Rat) (p : Point Rat) : Prop where
  left_le : box.left ≤ p.x
  le_right : p.x ≤ box.right
  bottom_le : box.bottom ≤ p.y
  le_top : p.y ≤ box.top

def flipped (scale : Rat) (shift : Point Rat) (box : Box Rat) : Box Rat :=
  ⟨shift.x + scale * box.left, shift.x + scale * box.right, shift.y - scale * box.top,
   shift.y - scale * box.bottom⟩

theorem cover_eq (box : Box Rat) (p : Point Rat) :
    box.cover p
      =
    ⟨min box.left p.x, max box.right p.x, min box.bottom p.y, max box.top p.y⟩ := by
  simp only [cover, Coordinate.lesser, Coordinate.greater]
  grind

theorem holds_around (p : Point Rat) : (around p).Holds p :=
  ⟨le_rfl, le_rfl, le_rfl, le_rfl⟩

theorem holds_cover_self (box : Box Rat) (p : Point Rat) : (box.cover p).Holds p := by
  rw [cover_eq]
  exact ⟨min_le_right _ _, le_max_right _ _, min_le_right _ _, le_max_right _ _⟩

theorem Holds.cover (h : box.Holds q) (p : Point Rat) : (box.cover p).Holds q := by
  rw [cover_eq]
  exact ⟨min_le_of_left_le h.left_le, le_max_of_le_left h.le_right, min_le_of_left_le h.bottom_le,
    le_max_of_le_left h.le_top⟩

theorem Holds.coverAll (h : box.Holds q) (points : List (Point Rat)) :
    (points.foldl Box.cover box).Holds q := by
  induction points generalizing box with
  | nil => exact h
  | cons p rest ih =>
    apply ih
    exact h.cover p

theorem holds_coverAll_of_mem {points : List (Point Rat)} (h : q ∈ points) (box : Box Rat) :
    (points.foldl Box.cover box).Holds q := by
  induction points generalizing box with
  | nil => simp at h
  | cons p rest ih =>
    rw [List.mem_cons] at h
    obtain rfl | h := h
    . exact (holds_cover_self box q).coverAll rest
    . exact ih h _

theorem Holds.width_nonneg (h : box.Holds p) : 0 ≤ box.width :=
  sub_nonneg.2 (h.left_le.trans h.le_right)

theorem Holds.height_nonneg (h : box.Holds p) : 0 ≤ box.height :=
  sub_nonneg.2 (h.bottom_le.trans h.le_top)

theorem Holds.flipped (h : box.Holds p) (hscale : 0 ≤ scale) (shift : Point Rat) :
    (box.flipped scale shift).Holds (Point.flipped scale shift p) := by
  have hleft := mul_le_mul_of_nonneg_left h.left_le hscale
  have hright := mul_le_mul_of_nonneg_left h.le_right hscale
  have hbottom := mul_le_mul_of_nonneg_left h.bottom_le hscale
  have htop := mul_le_mul_of_nonneg_left h.le_top hscale
  constructor <;> simp only [Box.flipped, Point.flipped] <;> linarith

theorem flipped_around (shift p : Point Rat) :
    (around p).flipped scale shift = around (Point.flipped scale shift p) := rfl

theorem flipped_cover (hscale : 0 ≤ scale) (shift : Point Rat) (box : Box Rat) (p : Point Rat) :
    (box.cover p).flipped scale shift
      =
    (box.flipped scale shift).cover (Point.flipped scale shift p) := by
  rw [cover_eq, cover_eq]
  simp only [flipped, Point.flipped, mul_min_of_nonneg _ _ hscale, mul_max_of_nonneg _ _ hscale,
    min_sub_sub_left, max_sub_sub_left, min_add_add_left, max_add_add_left]

theorem flipped_coverAll (hscale : 0 ≤ scale) (shift : Point Rat) (points : List (Point Rat))
    (box : Box Rat) :
    (points.foldl cover box).flipped scale shift
      =
    (points.map (Point.flipped scale shift)).foldl cover (box.flipped scale shift) := by
  induction points generalizing box with
  | nil => rfl
  | cons p rest ih =>
    simp only [List.foldl_cons, List.map_cons]
    rw [ih]
    rw [flipped_cover hscale]

end Box

namespace Path

variable {path : Path Rat} {box : Box Rat} {p : Point Rat} {scale : Rat}

theorem bounds?_ne_none (h : path.vertices ≠ #[]) : path.bounds? ≠ none := by
  unfold bounds?
  cases hvertices : path.vertices.toList with
  | nil => simp_all
  | cons first rest => simp

theorem holds_of_bounds? (h : path.bounds? = some box) (hp : p ∈ path.vertices) : box.Holds p := by
  unfold bounds? at h
  rw [← Array.mem_toList_iff] at hp
  cases hvertices : path.vertices.toList with
  | nil =>
    rw [hvertices] at hp
    simp at hp
  | cons first rest =>
    rw [hvertices] at h hp
    cases h
    rw [List.mem_cons] at hp
    obtain rfl | hp := hp
    . exact (Box.holds_around p).coverAll rest
    . exact Box.holds_coverAll_of_mem hp _

theorem bounds_of_bounds? (h : path.bounds? = some box) : path.bounds = .ok box := by
  unfold bounds
  rw [h]

theorem exists_vertex (h : path.vertices ≠ #[]) : ∃ p, p ∈ path.vertices :=
  Array.exists_mem_of_ne_empty _ h

theorem vertices_map (f : Point Rat → Point Rat) (path : Path Rat) :
    (path.map f).vertices = path.vertices.map f := by
  simp [vertices, map, Array.map_flatten]

theorem bounds?_map_flipped (h : path.bounds? = some box) (hscale : 0 ≤ scale) (shift : Point Rat) :
    (path.map (Point.flipped scale shift)).bounds? = some (box.flipped scale shift) := by
  unfold bounds? at h ⊢
  rw [vertices_map]
  rw [Array.toList_map]
  cases hvertices : path.vertices.toList with
  | nil => simp [hvertices] at h
  | cons first rest =>
    rw [hvertices] at h
    cases h
    simp only [List.map_cons]
    rw [Box.flipped_coverAll hscale]
    rw [Box.flipped_around]

end Path

theorem Coordinate.ofInt_reach (length margin : Int) :
    (Coordinate.ofInt (length - 2 * margin - 1) : Rat) = length - 1 - 2 * margin := by
  change ((length - 2 * margin - 1 : Int) : Rat) = _
  push_cast
  ring

theorem Coordinate.ofInt_reach_nonneg {length margin : Int} (h : 2 * margin < length) :
    0 ≤ (Coordinate.ofInt (length - 2 * margin - 1) : Rat) := by
  change (0 : Rat) ≤ ((length - 2 * margin - 1 : Int) : Rat)
  exact_mod_cast (by omega)

theorem Coordinate.ofInt_sub_one (n : Int) : (Coordinate.ofInt (n - 1) : Rat) = n - 1 := by
  change ((n - 1 : Int) : Rat) = _
  push_cast
  rfl

namespace Fit

variable {frame : Frame Rat} {box : Box Rat} {scale side available x : Rat}

theorem mem_scales_iff :
    x ∈ scales frame box ↔
      0 < box.width ∧ x = frame.width / box.width ∨ 0 < box.height ∧ x = frame.height / box.height := by
  have hbelow (side : Rat) :
      Coordinate.below (Coordinate.ofInt 0) side = decide (0 < side) := rfl
  unfold scales
  simp only [List.filterMap_cons, List.filterMap_nil, hbelow, decide_eq_true_eq]
  by_cases hwidth : 0 < box.width <;> by_cases hheight : 0 < box.height <;> simp [hwidth, hheight]

theorem smaller_eq (a b : Rat) : smaller a b = min a b := by
  simp only [smaller, Coordinate.below]
  grind

theorem foldl_smaller_mem (first : Rat) (rest : List Rat) :
    rest.foldl smaller first ∈ first :: rest := by
  induction rest generalizing first with
  | nil => simp
  | cons next rest ih =>
    have hmem := ih (smaller first next)
    rw [List.foldl_cons]
    rw [smaller_eq] at hmem ⊢
    rcases min_choice first next with h | h <;> rw [h] at hmem ⊢ <;> grind

theorem foldl_smaller_le {first : Rat} {rest : List Rat} (h : x ∈ first :: rest) :
    rest.foldl smaller first ≤ x := by
  induction rest generalizing first x with
  | nil => simp_all
  | cons next rest ih =>
    rw [List.foldl_cons]
    rw [smaller_eq]
    have hmin := ih (@List.mem_cons_self _ (min first next) rest)
    rw [List.mem_cons, List.mem_cons] at h
    obtain rfl | rfl | h := h
    . exact hmin.trans (min_le_left _ _)
    . exact hmin.trans (min_le_right _ _)
    . exact ih (List.mem_cons_of_mem _ h)

theorem scaleOf_of_nil (h : scales frame box = []) : scaleOf frame box = 1 := by
  unfold scaleOf
  rw [h]
  rfl

theorem scaleOf_mem (h : scales frame box ≠ []) : scaleOf frame box ∈ scales frame box := by
  unfold scaleOf
  cases hscales : scales frame box with
  | nil => exact absurd hscales h
  | cons first rest => exact foldl_smaller_mem first rest

theorem scaleOf_le (h : x ∈ scales frame box) : scaleOf frame box ≤ x := by
  unfold scaleOf
  cases hscales : scales frame box with
  | nil => simp [hscales] at h
  | cons first rest =>
    rw [hscales] at h
    exact foldl_smaller_le h

theorem scaleOf_nonneg (hwidth : 0 ≤ frame.width) (hheight : 0 ≤ frame.height) (box : Box Rat) :
    0 ≤ scaleOf frame box := by
  by_cases h : scales frame box = []
  . rw [scaleOf_of_nil h]
    exact zero_le_one
  . rcases mem_scales_iff.1 (scaleOf_mem h) with ⟨hside, hscale⟩ | ⟨hside, hscale⟩
    . rw [hscale]
      exact div_nonneg hwidth hside.le
    . rw [hscale]
      exact div_nonneg hheight hside.le

theorem side_mul_le (hside : 0 ≤ side) (havailable : 0 ≤ available)
    (h : 0 < side → scale ≤ available / side) : side * scale ≤ available := by
  rcases hside.eq_or_lt with hzero | hpos
  . rw [← hzero, zero_mul]
    exact havailable
  . rw [mul_comm]
    exact (le_div_iff₀ hpos).1 (h hpos)

theorem width_mul_scaleOf_le (hwidth : 0 ≤ frame.width) (hbox : 0 ≤ box.width) :
    box.width * scaleOf frame box ≤ frame.width := by
  apply side_mul_le hbox hwidth
  intro hside
  exact scaleOf_le (mem_scales_iff.2 (.inl ⟨hside, rfl⟩))

theorem height_mul_scaleOf_le (hheight : 0 ≤ frame.height) (hbox : 0 ≤ box.height) :
    box.height * scaleOf frame box ≤ frame.height := by
  apply side_mul_le hbox hheight
  intro hside
  exact scaleOf_le (mem_scales_iff.2 (.inr ⟨hside, rfl⟩))

theorem scaleOf_fills (h : 0 < box.width ∨ 0 < box.height) :
    box.width * scaleOf frame box = frame.width ∨ box.height * scaleOf frame box = frame.height := by
  have hscales : scales frame box ≠ [] := by
    obtain h | h := h
    . exact List.ne_nil_of_mem (mem_scales_iff.2 (.inl ⟨h, rfl⟩))
    . exact List.ne_nil_of_mem (mem_scales_iff.2 (.inr ⟨h, rfl⟩))
  rcases mem_scales_iff.1 (scaleOf_mem hscales) with ⟨hside, hscale⟩ | ⟨hside, hscale⟩
  . rw [hscale]
    exact .inl (mul_div_cancel₀ _ hside.ne')
  . rw [hscale]
    exact .inr (mul_div_cancel₀ _ hside.ne')

def shift (fit : Fit Rat) (box : Box Rat) (lastRow : Rat) : Point Rat :=
  ⟨fit.offset.x - fit.scale * box.left, lastRow - fit.offset.y + fit.scale * box.bottom⟩

theorem toPixel_eq (fit : Fit Rat) (box : Box Rat) (lastRow : Rat) :
    fit.toPixel box lastRow = Point.flipped fit.scale (fit.shift box lastRow) := by
  funext p
  simp only [toPixel, Point.flipped, shift, Point.mk.injEq]
  constructor <;> ring

def image (frame : Frame Rat) (box : Box Rat) (lastRow : Rat) : Box Rat :=
  box.flipped (scaleOf frame box) ((ofBox frame box).shift box lastRow)

/-- The room that a drawing leaves over is split between opposite sides. -/
theorem image_eq (frame : Frame Rat) (box : Box Rat) (lastRow : Rat) :
    let spareWidth := frame.width - box.width * scaleOf frame box
    let spareHeight := frame.height - box.height * scaleOf frame box
    image frame box lastRow
      =
    ⟨frame.margin + spareWidth / 2, frame.margin + frame.width - spareWidth / 2,
     lastRow - frame.margin - frame.height + spareHeight / 2,
     lastRow - frame.margin - spareHeight / 2⟩ := by
  have hscale : (ofBox frame box).scale = scaleOf frame box := rfl
  have hoffset : (ofBox frame box).offset
      = ⟨frame.margin + (frame.width - box.width * scaleOf frame box) / 2,
         frame.margin + (frame.height - box.height * scaleOf frame box) / 2⟩ := rfl
  have hwidth : box.width = box.right - box.left := rfl
  have hheight : box.height = box.top - box.bottom := rfl
  simp only [image, Box.flipped, shift, hscale, hoffset, hwidth, hheight, Box.mk.injEq]
  refine ⟨?_, ?_, ?_, ?_⟩ <;> ring

theorem image_within (hwidth : 0 ≤ frame.width) (hheight : 0 ≤ frame.height) {p q : Point Rat}
    (hp : box.Holds p) (lastRow : Rat) (hq : (image frame box lastRow).Holds q) :
    frame.margin ≤ q.x ∧ q.x ≤ frame.margin + frame.width ∧
      lastRow - frame.margin - frame.height ≤ q.y ∧ q.y ≤ lastRow - frame.margin := by
  have hspareWidth := width_mul_scaleOf_le hwidth hp.width_nonneg
  have hspareHeight := height_mul_scaleOf_le hheight hp.height_nonneg
  rw [image_eq] at hq
  have hleft := hq.left_le
  have hright := hq.le_right
  have hbottom := hq.bottom_le
  have htop := hq.le_top
  simp only at hleft hright hbottom htop
  refine ⟨?_, ?_, ?_, ?_⟩ <;> linarith

theorem image_centered (frame : Frame Rat) (box : Box Rat) (lastRow : Rat) :
    let image := image frame box lastRow
    (image.left + image.right) / 2 = frame.margin + frame.width / 2 ∧
      (image.bottom + image.top) / 2 = lastRow - frame.margin - frame.height / 2 := by
  rw [image_eq]
  constructor <;> ring

theorem image_fills (h : 0 < box.width ∨ 0 < box.height) (lastRow : Rat) :
    (image frame box lastRow).width = frame.width ∨ (image frame box lastRow).height = frame.height := by
  rw [image_eq]
  rcases scaleOf_fills h with hfills | hfills
  . left
    simp only [Box.width] at hfills ⊢
    linarith
  . right
    simp only [Box.height] at hfills ⊢
    linarith

end Fit

/-- A rational number, unless a quotient by zero went into it. -/
structure Checked where
  value? : Option Rat

namespace Checked

def of (x : Rat) : Checked := ⟨some x⟩

def combine (f : Rat → Rat → Rat) (a b : Checked) : Checked :=
  ⟨do return f (← a.value?) (← b.value?)⟩

def divide (a b : Checked) : Checked :=
  ⟨do if (← b.value?) = 0 then none else return (← a.value?) / (← b.value?)⟩

instance : Coordinate Checked where
  add := combine (· + ·)
  sub := combine (· - ·)
  mul := combine (· * ·)
  div := divide
  ofInt n := of n
  lesser := combine Coordinate.lesser
  greater := combine Coordinate.greater
  below a b := (do return Coordinate.below (← a.value?) (← b.value?) : Option Bool).getD false

variable {a b : Rat}

theorem of_div (h : b ≠ 0) (a : Rat) : of a / of b = of (a / b) := by
  change divide (of a) (of b) = of (a / b)
  simp [divide, of, h]

theorem below_of (a b : Rat) : Coordinate.below (of a) (of b) = decide (a < b) := rfl

end Checked

def Point.checked (p : Point Rat) : Point Checked :=
  ⟨.of p.x, .of p.y⟩

def Box.checked (box : Box Rat) : Box Checked :=
  ⟨.of box.left, .of box.right, .of box.bottom, .of box.top⟩

def Frame.checked (frame : Frame Rat) : Frame Checked :=
  ⟨.of frame.width, .of frame.height, .of frame.margin⟩

def Fit.checked (fit : Fit Rat) : Fit Checked :=
  ⟨.of fit.scale, fit.offset.checked⟩

def Path.checked (path : Path Rat) : Path Checked :=
  ⟨path.polylines.map fun polyline => polyline.map Point.checked⟩

namespace Fit

theorem scales_checked (frame : Frame Rat) (box : Box Rat) :
    scales frame.checked box.checked = (scales frame box).map Checked.of := by
  have hwidth : box.checked.width = .of box.width := rfl
  have hheight : box.checked.height = .of box.height := rfl
  have hscale (side available : Rat) :
      (if Coordinate.below (Coordinate.ofInt 0) (Checked.of side) then
        some (Checked.of available / Checked.of side) else none)
        =
      (if Coordinate.below (Coordinate.ofInt 0) side then some (available / side) else none).map
        Checked.of := by
    change (if decide ((0 : Rat) < side) then _ else none)
      = (if decide ((0 : Rat) < side) then _ else none).map Checked.of
    by_cases h : 0 < side
    . simp [h, Checked.of_div h.ne']
    . simp [h]
  unfold scales
  rw [hwidth, hheight]
  simp only [Frame.checked, List.filterMap_cons, List.filterMap_nil, hscale]
  grind

theorem smaller_checked (a b : Rat) : smaller (.of a) (.of b) = Checked.of (smaller a b) := by
  unfold smaller
  rw [Checked.below_of]
  change (if decide (b < a) then _ else _) = Checked.of (if decide (b < a) then _ else _)
  by_cases h : b < a <;> simp [h]

theorem scaleOf_checked (frame : Frame Rat) (box : Box Rat) :
    scaleOf frame.checked box.checked = .of (scaleOf frame box) := by
  unfold scaleOf
  rw [scales_checked]
  cases scales frame box with
  | nil => rfl
  | cons first rest =>
    simp only [List.map_cons]
    induction rest generalizing first with
    | nil => rfl
    | cons next rest ih =>
      simp only [List.map_cons, List.foldl_cons]
      rw [smaller_checked]
      apply ih

theorem ofBox_checked (frame : Frame Rat) (box : Box Rat) :
    ofBox frame.checked box.checked = (ofBox frame box).checked := by
  have htwo : (2 : Rat) ≠ 0 := two_ne_zero
  have hhalf (x : Rat) : Checked.of x / Coordinate.ofInt 2 = .of (x / 2) := Checked.of_div htwo x
  unfold ofBox
  rw [scaleOf_checked]
  simp only [checked, Point.checked, Fit.mk.injEq, Point.mk.injEq, true_and]
  constructor
  . change Checked.of frame.margin + Checked.of (frame.width - box.width * scaleOf frame box) /
      Coordinate.ofInt 2 = _
    rw [hhalf]
    rfl
  . change Checked.of frame.margin + Checked.of (frame.height - box.height * scaleOf frame box) /
      Coordinate.ofInt 2 = _
    rw [hhalf]
    rfl

theorem toPixel_checked (fit : Fit Rat) (box : Box Rat) (lastRow : Rat) (p : Point Rat) :
    fit.checked.toPixel box.checked (.of lastRow) p.checked = (fit.toPixel box lastRow p).checked := rfl

end Fit

namespace Path

variable {path : Path Rat} {box : Box Rat}

theorem cover_checked (box : Box Rat) (p : Point Rat) :
    box.checked.cover p.checked = (box.cover p).checked := rfl

theorem bounds?_checked (path : Path Rat) : path.checked.bounds? = path.bounds?.map Box.checked := by
  have hvertices : path.checked.vertices.toList = path.vertices.toList.map Point.checked := by
    simp [vertices, checked, Function.comp_def]
  have hfold (points : List (Point Rat)) (box : Box Rat) :
      (points.map Point.checked).foldl Box.cover box.checked = (points.foldl Box.cover box).checked := by
    induction points generalizing box with
    | nil => rfl
    | cons p rest ih =>
      simp only [List.map_cons, List.foldl_cons]
      rw [cover_checked]
      apply ih
  unfold bounds?
  rw [hvertices]
  cases path.vertices.toList with
  | nil => rfl
  | cons first rest =>
    simp only [List.map_cons, Option.map_some]
    rw [← hfold]
    rfl

theorem map_checked {f : Point Checked → Point Checked} {g : Point Rat → Point Rat}
    (h : ∀ p, f p.checked = (g p).checked) (path : Path Rat) :
    path.checked.map f = (path.map g).checked := by
  simp [checked, map, Function.comp_def, h]

theorem any_isEmpty_eq_false (hpolylines : ∀ polyline ∈ path.polylines, polyline ≠ #[]) :
    path.polylines.any (·.isEmpty) = false := by
  rw [Array.any_eq_false']
  intro polyline hpolyline
  simp [hpolylines polyline hpolyline]

theorem any_isEmpty_checked (path : Path Rat) :
    path.checked.polylines.any (·.isEmpty) = path.polylines.any (·.isEmpty) := by
  simp [checked, Array.isEmpty]

theorem toPixels_eq (hbounds : path.bounds? = some box)
    (hpolylines : ∀ polyline ∈ path.polylines, polyline ≠ #[]) (frame : Frame Rat) (lastRow : Rat) :
    path.toPixels frame lastRow = .ok (path.map ((Fit.ofBox frame box).toPixel box lastRow)) := by
  unfold toPixels bounds
  rw [hbounds, any_isEmpty_eq_false hpolylines]
  rfl

theorem toPixels_checked (hbounds : path.bounds? = some box)
    (hpolylines : ∀ polyline ∈ path.polylines, polyline ≠ #[]) (frame : Frame Rat) (lastRow : Rat) :
    path.checked.toPixels frame.checked (.of lastRow)
      =
    .ok (path.map ((Fit.ofBox frame box).toPixel box lastRow)).checked := by
  unfold toPixels bounds
  rw [bounds?_checked, hbounds]
  rw [any_isEmpty_checked, any_isEmpty_eq_false hpolylines]
  change Except.ok (path.checked.map ((Fit.ofBox frame.checked box.checked).toPixel box.checked _)) = _
  rw [Fit.ofBox_checked]
  rw [map_checked]
  intro p
  apply Fit.toPixel_checked

/--
Between its margins a canvas shows every drawing whole. The drawing is scaled by one factor, flipped
and centered, and if its box is more than a point, one side of it is as long as the room allows. No
quotient by zero is taken on the way.
-/
theorem toPixels_within_margins (path : Path Rat) (width height margin : Int)
    (hvertices : path.vertices ≠ #[]) (hpolylines : ∀ polyline ∈ path.polylines, polyline ≠ #[])
    (hwidth : 2 * margin < width) (hheight : 2 * margin < height) :
    ∃ box scale shift, path.bounds = .ok box ∧ 0 ≤ scale ∧
      let drawing := path.map (Point.flipped scale shift)
      let image := box.flipped scale shift
      path.toPixels (Frame.ofInts width height margin) (Coordinate.ofInt (height - 1)) = .ok drawing ∧
      path.checked.toPixels (Frame.ofInts width height margin) (Coordinate.ofInt (height - 1))
        = .ok drawing.checked ∧
      drawing.bounds = .ok image ∧
      (∀ q ∈ drawing.vertices, margin ≤ q.x ∧ q.x ≤ width - 1 - margin ∧
        margin ≤ q.y ∧ q.y ≤ height - 1 - margin) ∧
      (image.left + image.right) / 2 = ((width : Rat) - 1) / 2 ∧
      (image.bottom + image.top) / 2 = ((height : Rat) - 1) / 2 ∧
      (0 < box.width ∨ 0 < box.height →
        image.width = width - 1 - 2 * margin ∨ image.height = height - 1 - 2 * margin) := by
  obtain ⟨box, hbounds⟩ := Option.ne_none_iff_exists'.1 (bounds?_ne_none hvertices)
  obtain ⟨p, hp⟩ := exists_vertex hvertices
  have hholds := holds_of_bounds? hbounds hp
  let frame : Frame Rat := Frame.ofInts width height margin
  let lastRow : Rat := Coordinate.ofInt (height - 1)
  have hframeWidth : frame.width = width - 1 - 2 * margin := Coordinate.ofInt_reach width margin
  have hframeHeight : frame.height = height - 1 - 2 * margin := Coordinate.ofInt_reach height margin
  have hframeMargin : frame.margin = margin := rfl
  have hlastRow : lastRow = height - 1 := Coordinate.ofInt_sub_one height
  have hwide : 0 ≤ frame.width := Coordinate.ofInt_reach_nonneg hwidth
  have hhigh : 0 ≤ frame.height := Coordinate.ofInt_reach_nonneg hheight
  have hscale := Fit.scaleOf_nonneg hwide hhigh box
  have hdrawing := bounds?_map_flipped hbounds hscale ((Fit.ofBox frame box).shift box lastRow)
  have hplace := Fit.toPixel_eq (Fit.ofBox frame box) box lastRow
  have hpixels := toPixels_eq hbounds hpolylines frame lastRow
  have hchecked := toPixels_checked hbounds hpolylines frame lastRow
  rw [hplace] at hpixels hchecked
  refine ⟨box, Fit.scaleOf frame box, (Fit.ofBox frame box).shift box lastRow,
    bounds_of_bounds? hbounds, hscale, hpixels, hchecked, bounds_of_bounds? hdrawing, ?_, ?_, ?_, ?_⟩
  . intro q hq
    have hq := Fit.image_within hwide hhigh hholds lastRow (holds_of_bounds? hdrawing hq)
    refine ⟨?_, ?_, ?_, ?_⟩ <;> linarith
  . have hcenter := (Fit.image_centered frame box lastRow).1
    unfold Fit.image at hcenter
    linarith
  . have hcenter := (Fit.image_centered frame box lastRow).2
    unfold Fit.image at hcenter
    linarith
  . intro hside
    rw [← hframeWidth, ← hframeHeight]
    exact Fit.image_fills hside lastRow

theorem toPixels_within_margins_dotted :
    let path : Path Rat := ⟨#[#[⟨0, 0⟩, ⟨3, 1 / 2⟩], #[⟨1, -2⟩]]⟩
    path.vertices ≠ #[] ∧ (∀ polyline ∈ path.polylines, polyline ≠ #[]) ∧ (2 * 2 : Int) < 10 ∧
      (2 * 2 : Int) < 7 ∧ ∃ scale shift, 0 ≤ scale ∧
        path.toPixels (Frame.ofInts 10 7 2) (Coordinate.ofInt 6)
          = .ok (path.map (Point.flipped scale shift)) := by
  intro path
  have hvertices : path.vertices ≠ #[] := by decide
  have hpolylines : ∀ polyline ∈ path.polylines, polyline ≠ #[] := by simp [path]
  obtain ⟨_, scale, shift, _, hscale, hpixels, _⟩ :=
    toPixels_within_margins path 10 7 2 hvertices hpolylines (by decide) (by decide)
  exact ⟨hvertices, hpolylines, by decide, by decide, scale, shift, hscale, hpixels⟩

end Path
end TurtleCurves
