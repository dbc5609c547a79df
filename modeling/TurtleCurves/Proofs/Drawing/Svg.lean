import TurtleCurves.Drawing.Svg
import TurtleCurves.Proofs.Decimal.Compact
import TurtleCurves.Proofs.Fault
import TurtleCurves.Proofs.Store.Basic

/-!
This module contains what is in a drawing in the format SVG: an element for each polyline with segments and
no other one, with a pair of coordinates for each vertex. The color of an element is the one that stands in
the gradient at the number of segments before it.
-/

namespace TurtleCurves

namespace Decimal

variable {cs : List Char}

def IsNumeral (cs : List Char) : Prop :=
  ∀ c ∈ cs, c ≠ ' ' ∧ c ≠ ','

instance : Decidable (IsNumeral cs) :=
  List.decidableBAll _ cs

theorem isNumeral_compact (places : Nat) (x : Float) : IsNumeral (compact places x).toList := by
  intro c hc
  constructor
  . rintro rfl
    exact not_mem_compact (by decide) (by decide) places x hc
  . rintro rfl
    exact not_mem_compact (by decide) (by decide) places x hc

end Decimal

namespace Svg

variable {path : Path Float} {settings : Settings} {title precision : Value} {write : Float → String}

/-- The written coordinates of a list of points: points stand between blanks, coordinates between commas. -/
def coordinates (points : String) : List (List (List Char)) :=
  (points.toList.splitOn ' ').map (List.splitOn ',')

def pointsText (write : Float → String) (points : List (Point Float)) : String :=
  " ".intercalate (points.map fun p => write p.x ++ "," ++ write p.y)

theorem splitOn_pair {cs ds : List Char} (hcs : Decimal.IsNumeral cs) (hds : Decimal.IsNumeral ds) :
    (cs ++ ',' :: ds).splitOn ',' = [cs, ds] := by
  have htext : cs ++ ',' :: ds = [','].intercalate [cs, ds] := by simp [List.intercalate]
  rw [htext, List.splitOn_intercalate]
  . intro l hl hmem
    simp only [List.mem_cons, List.not_mem_nil, or_false] at hl
    rcases hl with rfl | rfl
    . exact (hcs _ hmem).2 rfl
    . exact (hds _ hmem).2 rfl
  . simp

theorem coordinates_pointsText (hwrite : ∀ x, Decimal.IsNumeral (write x).toList)
    {points : List (Point Float)} (hne : points ≠ []) :
    coordinates (pointsText write points) =
      points.map fun p => [(write p.x).toList, (write p.y).toList] := by
  have hpairs : (pointsText write points).toList.splitOn ' ' =
      points.map fun p => (write p.x).toList ++ ',' :: (write p.y).toList := by
    unfold pointsText
    rw [String.toList_intercalate, List.map_map]
    have hblank : " ".toList = [' '] := rfl
    rw [hblank, List.splitOn_intercalate]
    . simp [Function.comp_def]
    . intro l hl hmem
      obtain ⟨p, -, rfl⟩ := List.mem_map.1 hl
      simp only [Function.comp_apply, String.toList_append, List.mem_append] at hmem
      have hcomma : ' ' ∉ ",".toList := by decide
      rcases hmem with (hmem | hmem) | hmem
      . exact (hwrite _ _ hmem).1 rfl
      . exact hcomma hmem
      . exact (hwrite _ _ hmem).1 rfl
    . simpa using hne
  unfold coordinates
  rw [hpairs, List.map_map]
  apply List.map_congr_left
  intro p _
  exact splitOn_pair (hwrite p.x) (hwrite p.y)

theorem isNumeral_of_writer (h : writer precision = .ok write) (x : Float) :
    Decimal.IsNumeral (write x).toList := by
  unfold writer at h
  split at h
  . cases h
    exact Decimal.isNumeral_compact _ x
  . cases h

/-! The polylines with segments. -/

theorem drawn_append (before : Nat) (front back : List (Array (Point Float))) :
    drawn before (front ++ back) =
      drawn before front ++ drawn (before + (front.flatMap Path.segmentsOf).length) back := by
  induction front generalizing before with
  | nil => simp [drawn]
  | cons polyline front ih =>
    rw [List.cons_append, drawn, drawn, List.flatMap_cons, List.length_append, Path.length_segmentsOf]
    split
    . next hsmall =>
      rw [ih]
      congr 2
      omega
    . next hlarge =>
      rw [ih, List.cons_append]
      congr 3
      omega

theorem map_snd_drawn (before : Nat) (polylines : List (Array (Point Float))) :
    (drawn before polylines).map Prod.snd = polylines.filter fun polyline => 2 ≤ polyline.size := by
  induction polylines generalizing before with
  | nil => rfl
  | cons polyline polylines ih =>
    rw [drawn]
    split
    . next hsmall =>
      have hdropped : ¬ decide (2 ≤ polyline.size) = true := by
        rw [decide_eq_true_iff]
        omega
      rw [ih, List.filter_cons, if_neg hdropped]
    . next hlarge =>
      have hkept : decide (2 ≤ polyline.size) = true := by
        rw [decide_eq_true_iff]
        omega
      rw [List.map_cons, ih, List.filter_cons, if_pos hkept]

theorem length_drawn (before : Nat) (polylines : List (Array (Point Float))) :
    (drawn before polylines).length = polylines.countP fun polyline => 2 ≤ polyline.size := by
  rw [← List.length_map Prod.snd, map_snd_drawn, List.countP_eq_length_filter]

theorem getElem?_drawn (before : Nat) (front back : List (Array (Point Float)))
    {polyline : Array (Point Float)} (h : 2 ≤ polyline.size) :
    (drawn before (front ++ polyline :: back))[front.countP fun polyline => 2 ≤ polyline.size]? =
      some (before + (front.flatMap Path.segmentsOf).length, polyline) := by
  rw [drawn_append, drawn, if_neg (by omega)]
  rw [← length_drawn before front, List.getElem?_append_right le_rfl, Nat.sub_self]
  rfl

/-! The lines of a drawing. -/

def mark : String := "    <polyline "

def isElement (line : String) : Bool :=
  mark.toList.isPrefixOf line.toList

theorem isElement_mark (rest : String) : isElement (mark ++ rest) = true := by
  unfold isElement
  rw [List.isPrefixOf_iff_prefix, String.toList_append]
  exact List.prefix_append _ _

theorem isElement_of_other {lead : String} (h : ¬ mark.toList <+: lead.toList)
    (h' : ¬ lead.toList <+: mark.toList) (rest : String) : isElement (lead ++ rest) = false := by
  unfold isElement
  rw [Bool.eq_false_iff, ne_eq, List.isPrefixOf_iff_prefix, String.toList_append]
  intro hmark
  exact (List.prefix_or_prefix_of_prefix hmark (List.prefix_append _ _)).elim h h'

def Shows (write : Float → String) (polyline : Array (Point Float)) (color : Color) (line : String) : Prop :=
  ∃ points rest, line = mark ++ "points=\"" ++ points ++ "\" stroke=\"" ++ color.web ++ "\" " ++ rest ∧
    coordinates points = polyline.toList.map fun p => [(write p.x).toList, (write p.y).toList]

def finish (strokeWidth : String) : String :=
  "stroke-width=\"" ++ strokeWidth ++ "\" fill=\"none\" stroke-linecap=\"round\" stroke-linejoin=\"round\" />"

theorem polylineLine_eq (write : Float → String) (strokeWidth : String) (color : Color)
    (polyline : Array (Point Float)) :
    polylineLine write strokeWidth color polyline =
      mark ++ "points=\"" ++ pointsText write polyline.toList ++ "\" stroke=\"" ++ color.web ++ "\" " ++
        finish strokeWidth := by
  have hmark : "    <polyline points=\"" = mark ++ "points=\"" := by decide
  have hwidth : "\" stroke-width=\"" = "\" " ++ "stroke-width=\"" := by decide
  unfold polylineLine pointsText finish
  simp only [hmark, hwidth, String.append_assoc]

theorem isElement_polylineLine (write : Float → String) (strokeWidth : String) (color : Color)
    (polyline : Array (Point Float)) : isElement (polylineLine write strokeWidth color polyline) = true := by
  rw [polylineLine_eq]
  simp only [String.append_assoc]
  exact isElement_mark _

theorem shows_polylineLine (hwrite : ∀ x, Decimal.IsNumeral (write x).toList) (strokeWidth : String)
    (color : Color) {polyline : Array (Point Float)} (hne : polyline ≠ #[]) :
    Shows write polyline color (polylineLine write strokeWidth color polyline) :=
  ⟨pointsText write polyline.toList, finish strokeWidth, polylineLine_eq write strokeWidth color polyline,
    coordinates_pointsText hwrite (by simpa using hne)⟩

theorem isElement_titleLines {titles : List String} (h : titleLines title = .ok titles) :
    ∀ line ∈ titles, isElement line = false := by
  unfold titleLines at h
  split at h
  . split at h
    . cases h
      simp only [List.mem_singleton, forall_eq, String.append_assoc]
      exact isElement_of_other (by decide) (by decide) _
    . cases h
  . cases h
    simp

theorem filter_isElement {before titles inside elements after : List String}
    (hbefore : ∀ line ∈ before, isElement line = false) (htitles : ∀ line ∈ titles, isElement line = false)
    (hinside : ∀ line ∈ inside, isElement line = false) (helements : ∀ line ∈ elements, isElement line = true)
    (hafter : ∀ line ∈ after, isElement line = false) :
    (before ++ titles ++ (inside ++ elements) ++ after).filter isElement = elements := by
  have hnone {ls : List String} (h : ∀ line ∈ ls, isElement line = false) : ls.filter isElement = [] := by
    rw [List.filter_eq_nil_iff]
    intro line hline
    simp [h line hline]
  simp only [List.filter_append, hnone hbefore, hnone htitles, hnone hinside, hnone hafter,
    List.filter_eq_self.2 helements, List.nil_append, List.append_nil]

def elements (path : Path Float) (gradient : Gradient) (write : Float → String) (strokeWidth : String) :
    List String :=
  (drawn 0 path.polylines.toList).map fun (before, polyline) =>
    polylineLine write strokeWidth (gradient.color (gradient.indexOf path.segmentCount before)) polyline

theorem filter_isElement_lines {ls : List String} (h : lines path settings title precision = .ok ls) :
    ∃ box frame gradient write strokeWidth, path.bounds = .ok box ∧
      Frame.ofValues settings.width settings.height settings.margin = .ok frame ∧
      Gradient.read settings.gradientStart settings.gradientEnd settings.gradientCount = .ok gradient ∧
      writer precision = .ok write ∧
      ls.filter isElement = elements path gradient write strokeWidth := by
  unfold lines at h
  simp only [Result.bind_eq_ok] at h
  obtain ⟨box, hbox, frame, hframe, room, -, view, -, write, hwrite, lineWidth, -, thickness, -, gradient,
    hgradient, titles, htitles, background, -, ⟨⟩⟩ := h
  refine ⟨box, frame, gradient, write, write thickness, hbox, hframe, hgradient, hwrite, ?_⟩
  simp only [String.append_assoc]
  refine @filter_isElement [_, _] titles [_, _] _ _ ?_ (isElement_titleLines htitles) ?_ ?_ (by decide)
  . rw [List.forall_mem_cons, List.forall_mem_singleton]
    exact ⟨by decide, isElement_of_other (by decide) (by decide) _⟩
  . rw [List.forall_mem_cons, List.forall_mem_singleton]
    exact ⟨isElement_of_other (by decide) (by decide) _, isElement_of_other (by decide) (by decide) _⟩
  . intro line hline
    obtain ⟨⟨before, polyline⟩, -, rfl⟩ := List.mem_map.1 hline
    exact isElement_polylineLine ..

theorem find?_of_perform_save {name : FileName} {store after : Store}
    (h : (save path name settings title precision).perform store = (.ok (), after)) :
    ∃ ls, lines path settings title precision = .ok ls ∧
      after.find? name = some (.file (.text ("\n".intercalate ls ++ "\n"))) := by
  unfold save at h
  obtain ⟨ls, begun, hresult, hrest⟩ := Task.perform_bind_eq_ok h
  obtain ⟨hlines, -⟩ := Task.perform_ofResult_eq_ok hresult
  obtain ⟨_, between, -, hwrite⟩ := Task.perform_bind_eq_ok hrest
  refine ⟨ls, hlines, ?_⟩
  rw [Store.find?_of_perform_write hwrite, if_pos rfl]

end Svg
end TurtleCurves
