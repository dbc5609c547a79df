import TurtleCurves.Proofs.Binary.Overflow
import TurtleCurves.Proofs.Drawing.Agreement
import TurtleCurves.Settings.Rules

/-!
This module contains the view box of a drawing in the format SVG. The box has an area, but its sides are
written rounded, so that a side of up to half a unit of the last place is written as nothing.
-/

namespace TurtleCurves

namespace Decimal

variable {places : Nat} {q r : Rat}

theorem RoundedTo.pos_iff (h : RoundedTo places q r) (hq : 0 < q) : 0 < r ↔ 1 / 2 / 10 ^ places < q := by
  -- Half a unit is rounded to zero, which is even.
  obtain ⟨units, rfl, hnear, heven⟩ := h
  have hscale : (0 : Rat) < 10 ^ places := by positivity
  have hpos : 0 < q * 10 ^ places := by positivity
  obtain ⟨hlower, hupper⟩ := abs_le.1 hnear
  rw [div_pos_iff_of_pos_right hscale, div_lt_iff₀ hscale, Int.cast_pos]
  constructor
  . intro hunits
    have hone : (1 : Rat) ≤ units := by exact_mod_cast hunits
    rcases lt_or_eq_of_le (show 1 / 2 ≤ q * 10 ^ places by linarith) with hlt | heq
    . exact hlt
    . exfalso
      have hone : units = 1 := by
        have hle : (units : Rat) ≤ 1 := by linarith
        have : units ≤ 1 := by exact_mod_cast hle
        omega
      subst hone
      have htie : |q * 10 ^ places - (1 : Int)| = 1 / 2 := by
        rw [← heq]
        norm_num
      exact absurd (heven htie) (by decide)
  . intro hlt
    have : (0 : Rat) < units := by linarith
    exact_mod_cast this

/-- A side has a positive length, and is written rounded: as nothing if it is half a unit long at most. -/
structure Side (places : Nat) (length : Rat) (written : Numeral) : Prop where
  pos : 0 < length
  rounded : RoundedTo places length written.value
  pos_iff : 0 < written.value ↔ 1 / 2 / 10 ^ places < length

theorem exists_side (places : Nat) {x : Float} (hx : Binary.Denotes x q) (hpos : 0 < q) :
    ∃ written : Numeral, (compact places x).toList = written.toList ∧ Side places q written := by
  obtain ⟨written, htext, hrounded, -⟩ := toList_compact places hx
  exact ⟨written, htext, hpos, hrounded, hrounded.pos_iff hpos⟩

end Decimal

namespace Svg

open Binary

variable {path : Path Float} {settings : Settings} {title precision : Value} {box : Box Float} {room : Float}
variable {view : View}

def viewOf (path : Path Float) (settings : Settings) : Result View := do
  let box ← path.bounds
  let frame ← Frame.ofValues settings.width settings.height settings.margin
  View.around box (← divide frame.margin (Fit.scaleOf frame box))

theorem View.exists_denotes_of_around (h : View.around box room = .ok view) :
    ∃ v w, Denotes view.width v ∧ Denotes view.height w ∧ 0 < v ∧ 0 < w := by
  unfold View.around at h
  simp only at h
  split at h
  . next hguard =>
    cases h
    simp only [Bool.and_eq_true, decide_eq_true_eq] at hguard
    exact exists_denotes_of_isFinite_mul hguard.1.1 hguard.1.2 hguard.2
  . cases h

def Opens (line : String) (words : List (List Char)) : Prop :=
  ∃ box rest,
    line = "<svg xmlns=\"http://www.w3.org/2000/svg\" version=\"1.1\" viewBox=\"" ++ box ++
        "\" width=\"" ++ rest ∧
      '"' ∉ box.toList ∧ box.toList.splitOn ' ' = words

def View.texts (view : View) (write : Float → String) : List (List Char) :=
  [(write view.left).toList, (write view.bottom).toList, (write view.width).toList, (write view.height).toList]

def View.boxText (view : View) (write : Float → String) : String :=
  write view.left ++ " " ++ write view.bottom ++ " " ++ write view.width ++ " " ++ write view.height

theorem View.splitOn_boxText (view : View) (places : Nat) :
    (view.boxText (Decimal.compact places)).toList.splitOn ' ' = view.texts (Decimal.compact places) := by
  have htext : (view.boxText (Decimal.compact places)).toList =
      [' '].intercalate (view.texts (Decimal.compact places)) := by
    simp [boxText, texts, List.intercalate]
  rw [htext, List.splitOn_intercalate]
  . intro text htext
    simp only [texts, List.mem_cons, List.not_mem_nil, or_false] at htext
    rcases htext with rfl | rfl | rfl | rfl <;> exact Decimal.not_mem_compact (by decide) (by decide) _ _
  . simp [texts]

theorem View.quote_not_mem_boxText (view : View) (places : Nat) :
    '"' ∉ (view.boxText (Decimal.compact places)).toList := by
  have hnumber := Decimal.not_mem_compact (c := '"') (by decide) (by decide) places
  have hblank : '"' ∉ " ".toList := by decide
  simp only [boxText, String.toList_append, List.mem_append, hnumber, hblank, or_self, not_false_eq_true]

theorem opens_of_lines {ls : List String} (h : lines path settings title precision = .ok ls) :
    ∃ view places line, viewOf path settings = .ok view ∧ Decimal.places? precision = some places ∧
      ls[1]? = some line ∧ Opens line (view.texts (Decimal.compact places)) := by
  unfold lines at h
  simp only [Result.bind_eq_ok] at h
  obtain ⟨box, hbox, frame, hframe, room, hroom, view, hview, write, hwrite, lineWidth, -, thickness, -,
    gradient, -, titles, -, background, -, ⟨⟩⟩ := h
  have hviewOf : viewOf path settings = .ok view := by
    unfold viewOf
    rw [hbox, hframe]
    change (divide frame.margin (Fit.scaleOf frame box) >>= View.around box) = _
    rw [hroom]
    exact hview
  unfold writer at hwrite
  split at hwrite
  . next places hplaces =>
    cases hwrite
    refine ⟨view, places, _, hviewOf, hplaces, rfl, view.boxText (Decimal.compact places),
      settings.width.plain ++ "\" height=\"" ++ settings.height.plain ++ "\">", ?_,
      view.quote_not_mem_boxText places, view.splitOn_boxText places⟩
    simp only [View.boxText, String.append_assoc]
  . cases hwrite

theorem exists_denotes_of_viewOf (h : viewOf path settings = .ok view) :
    ∃ v w, Denotes view.width v ∧ Denotes view.height w ∧ 0 < v ∧ 0 < w := by
  unfold viewOf at h
  simp only [Result.bind_eq_ok] at h
  obtain ⟨_, -, _, -, _, -, h⟩ := h
  exact View.exists_denotes_of_around h

/--
The sides in the view box of a saved drawing stand for positive finite doubles, rounded. They are positive
themselves exactly if the doubles are above half a unit of the last place.
-/
theorem viewBox_of_perform_save {name : FileName} {store after : Store}
    (h : (save path name settings title precision).perform store = (.ok (), after)) :
    ∃ ls line view places left bottom v w, ∃ width height : Decimal.Numeral,
      after.find? name = some (.file (.text ("\n".intercalate ls ++ "\n"))) ∧ ls[1]? = some line ∧
      Opens line [left, bottom, width.toList, height.toList] ∧
      viewOf path settings = .ok view ∧ Denotes view.width v ∧ Denotes view.height w ∧
      Decimal.places? precision = some places ∧ Decimal.Side places v width ∧ Decimal.Side places w height := by
  obtain ⟨ls, hlines, hafter⟩ := find?_of_perform_save h
  obtain ⟨view, places, line, hview, hplaces, hline, hopens⟩ := opens_of_lines hlines
  obtain ⟨v, w, hdenotesWidth, hdenotesHeight, hv, hw⟩ := exists_denotes_of_viewOf hview
  obtain ⟨width, hwidth, hwidthSide⟩ := Decimal.exists_side places hdenotesWidth hv
  obtain ⟨height, hheight, hheightSide⟩ := Decimal.exists_side places hdenotesHeight hw
  unfold View.texts at hopens
  rw [hwidth, hheight] at hopens
  exact ⟨ls, line, view, places, _, _, v, w, width, height, hafter, hline, hopens, hview, hdenotesWidth,
    hdenotesHeight, hplaces, hwidthSide, hheightSide⟩

def tinyPath : Path Float :=
  ⟨#[#[⟨0, 0⟩, ⟨1e-9, 1e-9⟩]]⟩

def noMargin : Settings where
  width := .int 64
  height := .int 48
  margin := .int 0

theorem viewBox_of_perform_save_tiny :
    ∃ after, (save tinyPath speckledName noMargin .null (.int 6)).perform {} = (.ok (), after) ∧
      ∃ ls line left bottom v w, ∃ width height : Decimal.Numeral,
        after.find? speckledName = some (.file (.text ("\n".intercalate ls ++ "\n"))) ∧ ls[1]? = some line ∧
        Opens line [left, bottom, width.toList, height.toList] ∧
        Decimal.Side 6 v width ∧ Decimal.Side 6 w height := by
  obtain ⟨lines, hlines⟩ : ∃ lines, Svg.lines tinyPath noMargin .null (.int 6) = .ok lines :=
    Result.exists_of_isOk (by decide +kernel)
  obtain ⟨after, hsave⟩ : ∃ after,
      (save tinyPath speckledName noMargin .null (.int 6)).perform {} = (.ok (), after) := by
    unfold save
    rw [hlines]
    exact ⟨_, rfl⟩
  obtain ⟨ls, line, _, _, left, bottom, v, w, width, height, hafter, hline, hopens, -, -, -, ⟨⟩, hwidth,
    hheight⟩ := viewBox_of_perform_save hsave
  exact ⟨after, hsave, ls, line, left, bottom, v, w, width, height, hafter, hline, hopens, hwidth, hheight⟩

/-- A tiny square is drawn in a view box without an area. -/
theorem empty_viewBox_written :
    noMargin.validate = .ok () ∧ (tinyPath.vertices.all fun p => p.x.isFinite && p.y.isFinite) = true ∧
      ((save tinyPath speckledName noMargin .null (.int 6)).perform {}).1.isOk = true ∧
      (lines tinyPath noMargin .null (.int 6)).toOption.bind (·[1]?) =
        some ("<svg xmlns=\"http://www.w3.org/2000/svg\" version=\"1.1\" viewBox=\"0 0 0 0\" width=\"64\" " ++
          "height=\"48\">") := by
  refine ⟨rfl, ?_, ?_, ?_⟩
  . decide +kernel
  . decide +kernel
  . decide +kernel

end Svg
end TurtleCurves
