import TurtleCurves.Proofs.Drawing.Canvas
import TurtleCurves.Proofs.Drawing.Svg

/-!
This module contains the agreement of the two ways to draw a path. In an image every segment is a line in
its own color; in a file every polyline with segments is an element in the color that its first segment has
in the image.
-/

namespace TurtleCurves

namespace Path

variable {α : Type} {path : Path α}

theorem segmentsOf_map (f : Point α → Point α) (polyline : Array (Point α)) :
    segmentsOf (polyline.map f) = (segmentsOf polyline).map (Prod.map f f) := by
  unfold segmentsOf
  rw [Array.toList_map, ← List.map_tail, List.zip_map]

theorem segments_map (f : Point α → Point α) (path : Path α) :
    (path.map f).segments = path.segments.map (Prod.map f f) := by
  unfold segments map
  rw [Array.toList_map, List.flatMap_map, List.map_flatMap]
  exact List.flatMap_congr fun polyline _ => segmentsOf_map f polyline

theorem exists_first_segment {front back : List (Array (Point α))} {polyline : Array (Point α)}
    (hsplit : path.polylines.toList = front ++ polyline :: back) (h : 2 ≤ polyline.size) :
    ∃ start stop others, segmentsOf polyline = (start, stop) :: others ∧
      path.segments[(front.flatMap segmentsOf).length]? = some (start, stop) := by
  have hlength := length_segmentsOf polyline
  cases hsegments : segmentsOf polyline with
  | nil =>
    rw [hsegments, List.length_nil] at hlength
    omega
  | cons first others =>
    refine ⟨first.1, first.2, others, rfl, ?_⟩
    unfold segments
    rw [hsplit, List.flatMap_append, List.getElem?_append_right le_rfl, Nat.sub_self, List.flatMap_cons,
      hsegments]
    rfl

end Path

namespace Path

variable {path : Path Float} {colors : Array Color} {place : Point Float → Point Float} {width : Int}

theorem length_strokes (hsize : colors.size = path.segments.length) :
    ((path.map place).strokes colors width).length = path.segments.length := by
  have hcolors : colors.toList.length = path.segments.length := by simpa using hsize
  unfold strokes
  rw [List.length_zipWith, segments_map, List.length_map, hcolors, Nat.min_self]

theorem getElem?_strokes (hsize : colors.size = path.segments.length) {i : Nat} {start stop : Point Float}
    (h : path.segments[i]? = some (start, stop)) :
    ∃ color, colors[i]? = some color ∧
      ((path.map place).strokes colors width)[i]? = some ⟨place start, place stop, color, width⟩ := by
  obtain ⟨hi, -⟩ := List.getElem?_eq_some_iff.1 h
  have hcolor : colors[i]? = some colors[i] := Array.getElem?_eq_getElem (hsize ▸ hi)
  refine ⟨colors[i], hcolor, ?_⟩
  unfold strokes
  rw [List.getElem?_zipWith, segments_map, List.getElem?_map, h, Array.getElem?_toList, hcolor]
  rfl

end Path

namespace Raster

variable {path : Path Float} {settings : Settings} {raster : Raster} {gradient : Gradient}
variable {frame : Frame Float} {box : Box Float}

def place (ground : Canvas) (frame : Frame Float) (box : Box Float) : Point Float → Point Float :=
  (Fit.ofBox frame box).toPixel box (Float.ofInt (ground.height - 1))

theorem of_ofPath (h : ofPath path settings = .ok raster)
    (hgradient :
      Gradient.read settings.gradientStart settings.gradientEnd settings.gradientCount = .ok gradient)
    (hframe : Frame.ofValues settings.width settings.height settings.margin = .ok frame)
    (hbox : path.bounds = .ok box) :
    Canvas.ofValues settings.width settings.height settings.background = .ok raster.ground ∧
      ∃ width, raster.strokes = (path.map (place raster.ground frame box)).strokes
          (gradient.segmentColors path.segmentCount) width ∧
        (path.segments ≠ [] → Canvas.readLineWidth settings.lineWidth = .ok width) := by
  unfold ofPath at h
  rw [Result.bind_eq_ok] at h
  obtain ⟨ground, hground, h⟩ := h
  split at h
  . next hcount =>
    cases h
    rw [Path.segmentCount_eq, List.length_eq_zero_iff] at hcount
    refine ⟨hground, 1, ?_, fun hne => absurd hcount hne⟩
    unfold Path.strokes
    rw [Path.segments_map, hcount]
    rfl
  . rw [Result.bind_eq_ok] at h
    obtain ⟨strokes, hstrokes, ⟨⟩⟩ := h
    refine ⟨hground, ?_⟩
    unfold Path.strokesOn at hstrokes
    simp only [Result.bind_eq_ok] at hstrokes
    obtain ⟨gradient', hgradient', frame', hframe', pixels, hpixels, width, hwidth, ⟨⟩⟩ := hstrokes
    cases hgradient.symm.trans hgradient'
    cases hframe.symm.trans hframe'
    unfold Path.toPixels at hpixels
    rw [hbox] at hpixels
    change (if _ then _ else Except.ok (path.map (place ground frame box))) = _ at hpixels
    split at hpixels
    . cases hpixels
    . cases hpixels
      exact ⟨width, rfl, fun _ => hwidth⟩

/-- An image has one line for each segment of a path, each in a color of its own. -/
structure Draws (raster : Raster) (path : Path Float) (place : Point Float → Point Float)
    (colors : Array Color) (lineWidth : Value) : Prop where
  length_eq : raster.strokes.length = path.segments.length
  stroke_eq : ∀ (i : Nat) start stop, path.segments[i]? = some (start, stop) →
    ∃ color width, colors[i]? = some color ∧ Canvas.readLineWidth lineWidth = .ok width ∧
      raster.strokes[i]? = some ⟨place start, place stop, color, width⟩

end Raster

namespace Svg

variable {path : Path Float} {strokes : List Stroke} {write : Float → String}

/-- Elements go with strokes: there is one for each polyline with segments, in the color of its first. -/
structure GoesWith (elements : List String) (path : Path Float) (place : Point Float → Point Float)
    (strokes : List Stroke) (write : Float → String) : Prop where
  length_eq : elements.length = path.polylines.toList.countP fun polyline => 2 ≤ polyline.size
  /-- Before the element of a polyline there are those of the polylines before it, and before its first
  stroke all of theirs. -/
  element_eq : ∀ front polyline back, path.polylines.toList = front ++ polyline :: back → 2 ≤ polyline.size →
    ∃ element start stop others color width,
      elements[front.countP fun polyline => 2 ≤ polyline.size]? = some element ∧
      Path.segmentsOf polyline = (start, stop) :: others ∧
      strokes[(front.flatMap Path.segmentsOf).length]? = some ⟨place start, place stop, color, width⟩ ∧
      Shows write polyline color element

theorem goesWith_strokes {gradient : Gradient} {strokeWidth : String}
    (hwrite : ∀ x, Decimal.IsNumeral (write x).toList) (place : Point Float → Point Float) (width : Int) :
    GoesWith (elements path gradient write strokeWidth) path place
      ((path.map place).strokes (gradient.segmentColors path.segmentCount) width) write := by
  have hsize : (gradient.segmentColors path.segmentCount).size = path.segments.length := by
    rw [Gradient.size_segmentColors, Path.segmentCount_eq]
  constructor
  . rw [elements, List.length_map, length_drawn]
  . intro front polyline back hsplit hpolyline
    obtain ⟨start, stop, others, hothers, hfirst⟩ := Path.exists_first_segment hsplit hpolyline
    obtain ⟨color, hcolor, hstroke⟩ := @Path.getElem?_strokes path _ place width hsize _ _ _ hfirst
    have hne : polyline ≠ #[] := by
      rintro rfl
      simp at hpolyline
    refine ⟨polylineLine write strokeWidth color polyline, start, stop, others, color, width, ?_, hothers,
      hstroke, shows_polylineLine hwrite strokeWidth color hne⟩
    rw [elements, List.getElem?_map, hsplit, getElem?_drawn 0 front back hpolyline, Nat.zero_add]
    -- The number of segments before the polyline is the place of the color of its first stroke.
    rw [← Gradient.of_getElem?_segmentColors hcolor]
    rfl

end Svg

/--
If a path can be drawn both in an image and in a file, then the image has one line for each segment, in the
color at its place among those of all segments and in the width of the settings, and the file has one element
for each polyline with segments, in the color of the line of its first segment. Whatever brush draws the lines,
a pixel has the color of the last line that goes over it.
-/
theorem canvas_agrees_with_file {path : Path Float} {settings : Settings} {raster : Raster} {name : FileName}
    {title precision : Value} {store after : Store} (hraster : Raster.ofPath path settings = .ok raster)
    (hfile : (Svg.save path name settings title precision).perform store = (.ok (), after)) :
    ∃ gradient frame box write lines,
      Gradient.read settings.gradientStart settings.gradientEnd settings.gradientCount = .ok gradient ∧
      Frame.ofValues settings.width settings.height settings.margin = .ok frame ∧
      path.bounds = .ok box ∧
      Canvas.ofValues settings.width settings.height settings.background = .ok raster.ground ∧
      raster.Draws path (Raster.place raster.ground frame box) (gradient.segmentColors path.segmentCount)
        settings.lineWidth ∧
      (∀ brush, (raster.canvas brush).Shows raster.ground brush raster.strokes) ∧
      Svg.writer precision = .ok write ∧
      after.find? name = some (.file (.text ("\n".intercalate lines ++ "\n"))) ∧
      Svg.GoesWith (lines.filter Svg.isElement) path (Raster.place raster.ground frame box) raster.strokes
        write := by
  obtain ⟨lines, hlines, hafter⟩ := Svg.find?_of_perform_save hfile
  obtain ⟨box, frame, gradient, write, strokeWidth, hbox, hframe, hgradient, hwrite, helements⟩ :=
    Svg.filter_isElement_lines hlines
  obtain ⟨hground, width, hstrokes, hwidth⟩ := Raster.of_ofPath hraster hgradient hframe hbox
  have hsize : (gradient.segmentColors path.segmentCount).size = path.segments.length := by
    rw [Gradient.size_segmentColors, Path.segmentCount_eq]
  have hdraws : raster.Draws path (Raster.place raster.ground frame box)
      (gradient.segmentColors path.segmentCount) settings.lineWidth := by
    constructor
    . rw [hstrokes]
      exact Path.length_strokes hsize
    . intro i start stop hsegment
      obtain ⟨color, hcolor, hstroke⟩ :=
        @Path.getElem?_strokes path _ (Raster.place raster.ground frame box) width hsize _ _ _ hsegment
      refine ⟨color, width, hcolor, hwidth ?_, hstrokes ▸ hstroke⟩
      rintro hnil
      simp [hnil] at hsegment
  refine ⟨gradient, frame, box, write, lines, hgradient, hframe, hbox, hground, hdraws,
    raster.shows_canvas, hwrite, hafter, ?_⟩
  rw [helements, hstrokes]
  exact Svg.goesWith_strokes (Svg.isNumeral_of_writer hwrite) _ width

def speckledPath : Path Float :=
  ⟨#[#[⟨0, 3⟩], #[⟨0, 0⟩, ⟨4, 0⟩, ⟨4, 2⟩], #[⟨1, 1⟩], #[⟨0, 2⟩, ⟨2, 2⟩], #[⟨4, 3⟩]]⟩

def smallSettings : Settings where
  width := .int 12
  height := .int 9
  margin := .int 1
  lineWidth := .int 2

def speckledName : FileName :=
  ⟨["speckled.svg"], false⟩

theorem canvas_agrees_with_file_speckled :
    ∃ raster after, Raster.ofPath speckledPath smallSettings = .ok raster ∧
      (Svg.save speckledPath speckledName smallSettings .null (.int 6)).perform {} = (.ok (), after) ∧
      ∃ place colors write lines, raster.Draws speckledPath place colors (.int 2) ∧
        raster.strokes.length = 3 ∧ (raster.canvas .fine).Shows raster.ground .fine raster.strokes ∧
        after.find? speckledName = some (.file (.text ("\n".intercalate lines ++ "\n"))) ∧
        Svg.GoesWith (lines.filter Svg.isElement) speckledPath place raster.strokes write := by
  obtain ⟨raster, hraster⟩ : ∃ raster, Raster.ofPath speckledPath smallSettings = .ok raster :=
    Result.exists_of_isOk (by decide +kernel)
  obtain ⟨lines, hlines⟩ : ∃ lines, Svg.lines speckledPath smallSettings .null (.int 6) = .ok lines :=
    Result.exists_of_isOk (by decide +kernel)
  obtain ⟨after, hsave⟩ : ∃ after,
      (Svg.save speckledPath speckledName smallSettings .null (.int 6)).perform {} = (.ok (), after) := by
    unfold Svg.save
    rw [hlines]
    exact ⟨_, rfl⟩
  obtain ⟨gradient, frame, box, write, lines, -, -, -, -, hdraws, hshows, -, hafter, helements⟩ :=
    canvas_agrees_with_file hraster hsave
  exact ⟨raster, after, hraster, hsave, _, _, write, lines, hdraws, hdraws.length_eq, hshows _, hafter,
    helements⟩

end TurtleCurves
