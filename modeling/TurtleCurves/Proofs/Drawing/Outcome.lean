import TurtleCurves.Proofs.Color.Gradient
import TurtleCurves.Proofs.Decimal.Trailing
import TurtleCurves.Proofs.Drawing.Scale
import TurtleCurves.Proofs.Drawing.Svg
import TurtleCurves.Proofs.Settings.Soundness
import TurtleCurves.Proofs.Store.Refusal

/-!
This module contains what comes of saving a drawing of finite points with whole settings. Either the file is
written, or nothing is there to be drawn, or the path is so wide that its view has no bounds; and if a side of
the path is cramped, then the margin is divided by a scale that is nothing.
-/

namespace TurtleCurves

open Binary

namespace Number

theorem le_whole (a b : Int) : (whole a).le (whole b) = decide (a ≤ b) := by
  unfold le
  rw [compare?_whole]
  rw [Bool.eq_iff_iff]
  simp [Std.compare_eq_lt, le_iff_lt_or_eq]

theorem lesser_whole (a b : Int) : (whole a).lesser (whole b) = whole (min a b) := by
  unfold lesser
  rw [lt_whole]
  split
  . next hlt => rw [min_eq_right (of_decide_eq_true hlt).le]
  . next hle => rw [min_eq_left (not_lt.1 fun hlt => hle (decide_eq_true hlt))]

def Overflows (n : Int) : Prop :=
  (whole n).toFloat? = none

theorem isInf_of_view_infinite {x : Float} {negative : Bool} (h : Binary.view x = .infinite negative) :
    x.isInf = true := by
  obtain ⟨s, hs, -⟩ := unpack_of_view_infinite h
  change x.toModel.unpack.isInf = true
  rw [hs]
  rfl

theorem exists_of_toFloat? {n : Nat} {x : Float} (h : (whole n).toFloat? = some x) :
    ∃ r, RoundsTo n r ∧ Denotes x r := by
  have hread : (whole n).toFloat? = if (Float.ofNat n).isInf then none else some (Float.ofNat n) := rfl
  rw [hread] at h
  split at h
  . cases h
  . next hfinite =>
    cases h
    cases rounded_ofNat n with
    | finite hr hx => exact ⟨_, hr, hx⟩
    | infinite hv hx => exact absurd (isInf_of_view_infinite hx) hfinite

end Number

namespace Gradient

theorem read_outcome (first last : Color) {count : Int} (hleast : 2 ≤ count) :
    Number.Overflows count ∧ read first.toValue last.toValue (.int count) = .error .overflow ∨
      (maxCount < count ∧ read first.toValue last.toValue (.int count) = .error .badValue ∨
        ∃ g, read first.toValue last.toValue (.int count) = .ok g) := by
  have hlt : (Number.whole count).lt (.whole 2) = false := by
    rw [Number.lt_whole]
    exact decide_eq_false (by omega)
  by_cases hmost : count ≤ maxCount
  . exact .inr (.inr ((exists_read_iff first last).2 ⟨count, rfl, hleast, hmost⟩))
  rw [read_toValue]
  simp only [Value.toNumber_int, hlt, bind, Except.bind, pure, Except.pure, Bool.false_eq_true, if_false]
  unfold readCount
  simp only [dif_pos (show 2 ≤ count.toNat by omega)]
  by_cases hdouble : (Number.whole count).toFloat?.isNone = true
  . rw [if_pos hdouble]
    exact .inl ⟨Option.isNone_iff_eq_none.1 hdouble, rfl⟩
  . rw [if_neg hdouble, if_pos (show maxCount < count.toNat by omega)]
    exact .inr (.inl ⟨by omega, rfl⟩)

end Gradient

namespace Settings

variable {s : Settings} {width height margin lineWidth count : Int}

/-- Settings whose numbers are whole, and whose colors are lists of whole numbers. -/
structure IsWhole (s : Settings) (width height margin lineWidth count : Int) : Prop where
  width_eq : s.width = .int width
  height_eq : s.height = .int height
  margin_eq : s.margin = .int margin
  lineWidth_eq : s.lineWidth = .int lineWidth
  count_eq : s.gradientCount = .int count
  colors : ∀ field ∈ Field.colors, ∃ channels : List Int, s.get field = .list (channels.map .int)

theorem IsWhole.exists_color (h : s.IsWhole width height margin lineWidth count) (hvalid : s.validate = .ok ())
    {field : Field} (hfield : field.reading = .color) : ∃ c : Color, s.get field = c.toValue := by
  obtain ⟨channels, hchannels⟩ := h.colors field (mem_colors.2 hfield)
  exact exists_color_of_checkColor (of_validate hvalid (mem_colors.2 hfield)) hchannels

theorem IsWhole.room (h : s.IsWhole width height margin lineWidth count) (hvalid : s.validate = .ok ()) :
    0 ≤ margin ∧ 2 * margin < width ∧ 2 * margin < height := by
  obtain ⟨-, hmargin, -⟩ := of_validate_numbers hvalid
  obtain ⟨m, w, l, hm, hw, hl, hleast, hroom⟩ := of_checkMargin hmargin
  rw [h.margin_eq] at hm
  rw [h.width_eq] at hw
  rw [h.height_eq] at hl
  cases hm
  cases hw
  cases hl
  rw [Number.lt_whole, decide_eq_false_iff_not] at hleast
  rw [Number.lesser_whole] at hroom
  change (Number.whole (min width height)).le (.whole (2 * margin)) = false at hroom
  rw [Number.le_whole, decide_eq_false_iff_not] at hroom
  omega

theorem IsWhole.read_outcome (h : s.IsWhole width height margin lineWidth count)
    (hvalid : s.validate = .ok ()) :
    Number.Overflows count ∧ Gradient.read s.gradientStart s.gradientEnd s.gradientCount = .error .overflow ∨
      (Gradient.maxCount < count ∧
          Gradient.read s.gradientStart s.gradientEnd s.gradientCount = .error .badValue ∨
        ∃ g, Gradient.read s.gradientStart s.gradientEnd s.gradientCount = .ok g) := by
  obtain ⟨first, hfirst⟩ : ∃ c : Color, s.gradientStart = c.toValue :=
    h.exists_color hvalid (rfl : Field.gradientStart.reading = .color)
  obtain ⟨last, hlast⟩ : ∃ c : Color, s.gradientEnd = c.toValue :=
    h.exists_color hvalid (rfl : Field.gradientEnd.reading = .color)
  rw [hfirst, hlast, h.count_eq]
  exact Gradient.read_outcome first last (two_le_of_validate hvalid h.count_eq)

theorem IsWhole.exists_web (h : s.IsWhole width height margin lineWidth count) (hvalid : s.validate = .ok ()) :
    ∃ text, Color.webOf s.background = .ok text := by
  obtain ⟨c, hc⟩ : ∃ c : Color, s.background = c.toValue :=
    h.exists_color hvalid (rfl : Field.background.reading = .color)
  rw [hc]
  exact ⟨c.web, Color.webOf_toValue c⟩

end Settings

namespace Frame

theorem exists_room {length margin : Int} {x : Float} (hroom : 2 * margin < length)
    (h : (Number.whole (length - 2 * margin - 1)).toFloat? = some x) :
    ∃ r, Denotes x r ∧ (r = 0 ∨ 1 ≤ r) ∧ (r = 0 ↔ length = 2 * margin + 1) := by
  obtain ⟨n, hn⟩ := Int.eq_ofNat_of_zero_le (show 0 ≤ length - 2 * margin - 1 by omega)
  rw [hn] at h
  obtain ⟨r, hround, hdenotes⟩ := Number.exists_of_toFloat? h
  refine ⟨r, hdenotes, ?_, ?_⟩
  . by_cases hzero : n = 0
    . subst hzero
      exact .inl (RoundsTo.eq_zero (by simpa using hround))
    . have hone : (1 : Rat) ≤ n := by exact_mod_cast Nat.pos_of_ne_zero hzero
      exact .inr (roundsTo_one.mono hround hone)
  . rw [hround.eq_zero_iff, Nat.cast_eq_zero]
    omega

def lengths (width height margin : Int) : List Int :=
  [width - 2 * margin - 1, height - 2 * margin - 1, margin]

theorem ofValues_int (width height margin : Int) :
    ofValues (.int width) (.int height) (.int margin) =
      match (Number.whole (width - 2 * margin - 1)).toFloat?, (Number.whole (height - 2 * margin - 1)).toFloat?,
        (Number.whole margin).toFloat? with
      | some x, some y, some z => .ok ⟨x, y, z⟩
      | _, _, _ => .error .overflow := by
  have hreach (length : Int) :
      available (.whole length) (.whole margin) = some (.whole (length - 2 * margin - 1)) := rfl
  unfold ofValues
  simp only [Value.toNumber_int, hreach, bind, Except.bind, pure, Except.pure]
  cases (Number.whole (width - 2 * margin - 1)).toFloat? with
  | none => rfl
  | some x =>
    cases (Number.whole (height - 2 * margin - 1)).toFloat? with
    | none => rfl
    | some y => cases (Number.whole margin).toFloat? <;> rfl

/-- Of whole numbers the frame is computed as such, if each of its numbers fits a double. -/
theorem ofValues_int_eq_ok_iff {width height margin : Int} {frame : Frame Float} :
    ofValues (.int width) (.int height) (.int margin) = .ok frame ↔
      (∀ n ∈ lengths width height margin, (Float.ofInt n).isInf = false) ∧
        frame = ofInts width height margin := by
  have hfloat (n : Int) :
      (Number.whole n).toFloat? = if (Float.ofInt n).isInf then none else some (Float.ofInt n) := rfl
  rw [ofValues_int]
  simp only [hfloat, lengths, List.forall_mem_cons]
  by_cases hwidth : (Float.ofInt (width - 2 * margin - 1)).isInf
  . simp [hwidth]
  by_cases hheight : (Float.ofInt (height - 2 * margin - 1)).isInf
  . simp [hwidth, hheight]
  by_cases hmargin : (Float.ofInt margin).isInf
  . simp [hwidth, hheight, hmargin]
  simp only [hwidth, hheight, hmargin]
  constructor
  . intro h
    cases h
    exact ⟨by simp, rfl⟩
  . rintro ⟨-, rfl⟩
    rfl

theorem ofValues_outcome {width height margin : Int} (hwidth : 2 * margin < width)
    (hheight : 2 * margin < height) :
    (∃ n ∈ lengths width height margin, Number.Overflows n) ∧
        ofValues (.int width) (.int height) (.int margin) = .error .overflow ∨
      ∃ frame a b, ofValues (.int width) (.int height) (.int margin) = .ok frame ∧ Fit.HasRoom frame a b ∧
        (a = 0 ↔ width = 2 * margin + 1) ∧ (b = 0 ↔ height = 2 * margin + 1) := by
  rw [ofValues_int]
  split
  . next x y z hx hy hz =>
    obtain ⟨a, ha, haUnit, haZero⟩ := exists_room hwidth hx
    obtain ⟨b, hb, hbUnit, hbZero⟩ := exists_room hheight hy
    exact .inr ⟨_, a, b, rfl, ⟨ha, hb, haUnit, hbUnit⟩, haZero, hbZero⟩
  . next hmissing =>
    refine .inl ⟨?_, rfl⟩
    by_contra hall
    have hsome {n : Int} (hn : n ∈ lengths width height margin) : ∃ x, (Number.whole n).toFloat? = some x :=
      Option.ne_none_iff_exists'.1 fun hnone => hall ⟨n, hn, hnone⟩
    obtain ⟨x, hx⟩ := @hsome (width - 2 * margin - 1) (by simp [lengths])
    obtain ⟨y, hy⟩ := @hsome (height - 2 * margin - 1) (by simp [lengths])
    obtain ⟨z, hz⟩ := @hsome margin (by simp [lengths])
    exact hmissing x y z hx hy hz

end Frame

namespace Svg

variable {path : Path Float} {s : Settings} {title precision : Value} {box : Box Float} {frame : Frame Float}
variable {width height margin lineWidth count : Int} {places : Nat} {store : Store} {name : FileName}

theorem writer_natCast (hplaces : places < Decimal.placesLimit) :
    writer (.int places) = .ok (Decimal.compact places) := by
  have hread : Decimal.places? (.int places) = some places :=
    Decimal.places?_eq_some_iff.2 ⟨hplaces, .inl rfl⟩
  unfold writer
  rw [hread]

theorem writer_of_le (hplaces : Decimal.placesLimit ≤ places) : writer (.int places) = .error .badValue := by
  have hread : Decimal.places? (.int places) = none := by
    rw [Option.eq_none_iff_forall_ne_some]
    intro n hn
    obtain ⟨hlt, heq | ⟨text, htext, -⟩⟩ := Decimal.places?_eq_some_iff.1 hn
    . cases heq
      omega
    . cases htext
  unfold writer
  rw [hread]

theorem exists_titleLines (h : title = .null ∨ ∃ t, title = .text t) : ∃ ls, titleLines title = .ok ls := by
  unfold titleLines
  rcases h with rfl | ⟨t, rfl⟩
  . exact ⟨_, rfl⟩
  . split <;> exact ⟨_, rfl⟩

theorem double_outcome (n : Int) :
    Number.Overflows n ∧ double (.int n) = .error .overflow ∨ ∃ x, double (.int n) = .ok x := by
  unfold double
  simp only [Value.toNumber_int, bind, Except.bind]
  cases hdouble : (Number.whole n).toFloat? with
  | none => exact .inl ⟨hdouble, rfl⟩
  | some x => exact .inr ⟨x, rfl⟩

theorem around_eq (box : Box Float) (room : Float) :
    View.around box room = .error .degenerateBounds ∨ ∃ view, View.around box room = .ok view := by
  unfold View.around
  simp only
  split
  . exact .inr ⟨_, rfl⟩
  . exact .inl rfl

theorem lines_of_empty (h : path.vertices = #[]) : lines path s title precision = .error .noVertices := by
  unfold lines
  rw [Path.bounds_of_empty h]
  rfl

theorem lines_of_frame_error {fault : Fault} (hbox : path.bounds = .ok box)
    (hframe : Frame.ofValues s.width s.height s.margin = .error fault) :
    lines path s title precision = .error fault := by
  unfold lines
  simp only [hbox, hframe, bind, Except.bind]

theorem lines_of_beq_zero (hbox : path.bounds = .ok box)
    (hframe : Frame.ofValues s.width s.height s.margin = .ok frame)
    (hscale : (Fit.scaleOf frame box == 0) = true) :
    lines path s title precision = .error .divisionByZero := by
  unfold lines divide
  simp only [hbox, hframe, hscale, bind, Except.bind, if_true]

/--
A side of the box of a path is cramped: it has a length, but the canvas has no room for more than a point, or
the length is infinite.
-/
def Cramped (path : Path Float) (width height margin : Int) : Prop :=
  ∃ box, path.bounds = .ok box ∧
    (0 < box.width ∧ (width = 2 * margin + 1 ∨ view box.width = .infinite false) ∨
      0 < box.height ∧ (height = 2 * margin + 1 ∨ view box.height = .infinite false))

/-- What can come of drawing a path of finite points with whole settings, and when. -/
inductive Outcome {α : Type} (path : Path Float) (width height margin lineWidth count : Int) (places : Nat) :
    Result α → Prop
  | noVertices (h : path.vertices = #[]) :
      Outcome path width height margin lineWidth count places (.error .noVertices)
  | overflow {n : Int} (hn : n ∈ Frame.lengths width height margin ++ [lineWidth, count])
      (h : Number.Overflows n) : Outcome path width height margin lineWidth count places (.error .overflow)
  | divisionByZero (h : Cramped path width height margin) :
      Outcome path width height margin lineWidth count places (.error .divisionByZero)
  | degenerateBounds (h : ¬Cramped path width height margin) :
      Outcome path width height margin lineWidth count places (.error .degenerateBounds)
  | badValue (h : ¬Cramped path width height margin)
      (hmost : Decimal.placesLimit ≤ places ∨ Gradient.maxCount < count) :
      Outcome path width height margin lineWidth count places (.error .badValue)
  | drawn (h : ¬Cramped path width height margin) (a : α) :
      Outcome path width height margin lineWidth count places (.ok a)

theorem Outcome.of_error {α β : Type} {fault : Fault}
    (h : Outcome path width height margin lineWidth count places (.error fault : Result α)) :
    Outcome path width height margin lineWidth count places (.error fault : Result β) := by
  cases h with
  | noVertices h => exact .noVertices h
  | overflow hn h => exact .overflow hn h
  | divisionByZero h => exact .divisionByZero h
  | degenerateBounds h => exact .degenerateBounds h
  | badValue h hmost => exact .badValue h hmost

theorem outcome_of_scale (hbox : path.bounds = .ok box)
    (hframe : Frame.ofValues s.width s.height s.margin = .ok frame)
    (hscale : (Fit.scaleOf frame box == 0) = false) (hroom : ¬Cramped path width height margin)
    (hwhole : s.IsWhole width height margin lineWidth count) (hvalid : s.validate = .ok ())
    (htitle : title = .null ∨ ∃ t, title = .text t) :
    Outcome path width height margin lineWidth count places (lines path s title (.int places)) := by
  obtain ⟨titles, htitles⟩ := exists_titleLines htitle
  obtain ⟨background, hbackground⟩ := hwhole.exists_web hvalid
  unfold lines divide
  simp only [hbox, hframe, hscale, bind, Except.bind, Bool.false_eq_true, if_false]
  rcases around_eq box (frame.margin / Fit.scaleOf frame box) with haround | ⟨view, haround⟩
  . rw [haround]
    exact .degenerateBounds hroom
  rw [haround]
  by_cases hplaces : Decimal.placesLimit ≤ places
  . rw [writer_of_le hplaces]
    exact .badValue hroom (.inl hplaces)
  rw [writer_natCast (not_le.1 hplaces), hwhole.lineWidth_eq]
  rcases double_outcome lineWidth with ⟨hoverflow, hline⟩ | ⟨x, hline⟩
  . rw [hline]
    exact .overflow (by simp) hoverflow
  rw [hline]
  rcases hwhole.read_outcome hvalid with ⟨hoverflow, hread⟩ | ⟨hmost, hread⟩ | ⟨g, hread⟩
  . simp only [hread]
    exact .overflow (by simp) hoverflow
  . simp only [hread]
    exact .badValue hroom (.inr hmost)
  . simp only [hread, htitles, hbackground]
    exact .drawn hroom _

theorem lines_outcome (hfinite : ∀ p ∈ path.vertices, p.IsFinite) (hvalid : s.validate = .ok ())
    (hwhole : s.IsWhole width height margin lineWidth count) (htitle : title = .null ∨ ∃ t, title = .text t) :
    Outcome path width height margin lineWidth count places (lines path s title (.int places)) := by
  by_cases hempty : path.vertices = #[]
  . rw [lines_of_empty hempty]
    exact .noVertices hempty
  obtain ⟨box, sides, hbox, hsides⟩ := Path.exists_hasSides hfinite hempty
  obtain ⟨-, hwidth, hheight⟩ := hwhole.room hvalid
  have hvalues : Frame.ofValues s.width s.height s.margin =
      Frame.ofValues (.int width) (.int height) (.int margin) := by
    rw [hwhole.width_eq, hwhole.height_eq, hwhole.margin_eq]
  rcases Frame.ofValues_outcome hwidth hheight with
    ⟨⟨n, hn, hoverflow⟩, hframe⟩ | ⟨frame, a, b, hframe, hroom, ha, hb⟩
  . rw [lines_of_frame_error hbox (hvalues.trans hframe)]
    exact .overflow (List.mem_append_left _ hn) hoverflow
  -- The scale is nothing exactly if the path is cramped.
  have hscale : (Fit.scaleOf frame box == 0) = true ↔ Cramped path width height margin := by
    rw [Fit.scaleOf_beq_zero_iff hsides hroom]
    unfold Cramped Fit.Cramped
    simp only [hbox, Except.ok.injEq, exists_eq_left', ha, hb]
  by_cases hzero : (Fit.scaleOf frame box == 0) = true
  . rw [lines_of_beq_zero hbox (hvalues.trans hframe) hzero]
    exact .divisionByZero (hscale.1 hzero)
  . exact outcome_of_scale hbox (hvalues.trans hframe) (Bool.eq_false_iff.2 hzero) (hscale.not.1 hzero) hwhole
      hvalid htitle

theorem exists_perform_save {ls : List String} (h : lines path s title precision = .ok ls)
    (hfree : store.obstacle? name.ancestors = none) (hname : store.find? name ≠ some .directory) :
    ∃ after, (save path name s title precision).perform store = (.ok (), after) ∧
      after.find? name = some (.file (.text ("\n".intercalate ls ++ "\n"))) := by
  have hlines : (Task.ofResult (lines path s title precision)).perform store = (.ok ls, store) := by
    rw [Task.perform_ofResult, h]
  have hparents : (Store.makeParents name).perform store = (.ok (), store.withDirectories name.ancestors) := by
    rw [Store.perform_makeParents, hfree]
  have hstill : (store.withDirectories name.ancestors).find? name ≠ some .directory := by
    rwa [Store.find?_withDirectories (.inr (Store.not_mem_ancestors rfl))]
  obtain ⟨after, hwrite, hafter⟩ := Store.exists_perform_write (.text ("\n".intercalate ls ++ "\n")) hstill
  refine ⟨after, ?_, hafter⟩
  unfold save
  rw [Task.perform_bind_ok hlines, Task.perform_bind_ok hparents]
  exact hwrite

theorem le_of_mem_drawn {start before : Nat} {polylines : List (Array (Point Float))}
    {polyline : Array (Point Float)} (h : (before, polyline) ∈ drawn start polylines) :
    before + 1 ≤ start + (polylines.flatMap Path.segmentsOf).length := by
  induction polylines generalizing start with
  | nil => cases h
  | cons first rest ih =>
    rw [drawn] at h
    rw [List.flatMap_cons, List.length_append, Path.length_segmentsOf]
    split at h
    . have := ih h
      omega
    . next hlarge =>
      rcases List.mem_cons.1 h with heq | h
      . cases heq
        omega
      . have := ih h
        omega

theorem lt_segmentCount_of_mem_drawn {before : Nat} {polyline : Array (Point Float)}
    (h : (before, polyline) ∈ drawn 0 path.polylines.toList) : before < path.segmentCount := by
  have hle := le_of_mem_drawn h
  rw [Path.segmentCount_eq]
  unfold Path.segments
  omega

/--
A drawing of finite points with whole settings that keep the rules has one of a few outcomes, and the file is
written or the store stays as it was. It is a division by zero that fails if the path is cramped. The segments
before a polyline are fewer than all of them, so that there is a color for each.
-/
theorem perform_save_outcome (hfinite : ∀ p ∈ path.vertices, p.IsFinite) (hvalid : s.validate = .ok ())
    (hwhole : s.IsWhole width height margin lineWidth count) (htitle : title = .null ∨ ∃ t, title = .text t)
    (places : Nat) (hfree : store.obstacle? name.ancestors = none)
    (hname : store.find? name ≠ some .directory) :
    (∃ result after, (save path name s title (.int places)).perform store = (result, after) ∧
      Outcome path width height margin lineWidth count places result ∧
      (∀ fault, result = .error fault → after = store) ∧
      (result = .ok () → ∃ contents, after.find? name = some (.file contents))) ∧
    ∀ before polyline, (before, polyline) ∈ drawn 0 path.polylines.toList → before < path.segmentCount := by
  refine ⟨?_, fun before polyline => lt_segmentCount_of_mem_drawn⟩
  have houtcome : Outcome path width height margin lineWidth count places
      (lines path s title (.int places)) :=
    lines_outcome hfinite hvalid hwhole htitle
  cases hlines : lines path s title (.int places) with
  | error fault =>
    rw [hlines] at houtcome
    refine ⟨.error fault, store, perform_save_of_error hlines store name, houtcome.of_error, ?_, ?_⟩
    . exact fun _ _ => rfl
    . intro h
      cases h
  | ok ls =>
    rw [hlines] at houtcome
    obtain ⟨after, hsave, hafter⟩ := exists_perform_save hlines hfree hname
    refine ⟨.ok (), after, hsave, ?_, ?_, fun _ => ⟨_, hafter⟩⟩
    . cases houtcome with
      | drawn h => exact .drawn h ()
    . intro fault h
      cases h

def vastPath : Path Float :=
  ⟨#[#[⟨-1e308, 0⟩, ⟨1e308, 1⟩]]⟩

def vastSettings : Settings where
  width := .int 64
  height := .int 48
  margin := .int 4

theorem perform_save_outcome_vast :
    vastSettings.validate = .ok () ∧
      (save vastPath ⟨["vast.svg"], false⟩ vastSettings .null (.int 6)).perform {} =
        (.error .divisionByZero, {}) := by
  have hfinite : ∀ p ∈ vastPath.vertices, p.IsFinite := by
    intro p hp
    have hp : p = ⟨-1e308, 0⟩ ∨ p = ⟨1e308, 1⟩ := by simpa [vastPath, Path.vertices] using hp
    rcases hp with rfl | rfl
    . exact ⟨by decide +kernel, by decide +kernel⟩
    . exact ⟨by decide +kernel, by decide +kernel⟩
  have hwhole : vastSettings.IsWhole 64 48 4 1 256 := by
    refine ⟨rfl, rfl, rfl, rfl, rfl, fun field hfield => ?_⟩
    cases field with
    | background => exact ⟨[0, 0, 48, 255], rfl⟩
    | gradientStart => exact ⟨[255, 255, 255, 255], rfl⟩
    | gradientEnd => exact ⟨[128, 128, 128, 255], rfl⟩
    | width | height | margin | lineWidth | gradientCount | maxSymbols | jpegQuality | saveMetadata =>
      exact absurd hfield (by decide)
  have hvalid : vastSettings.validate = .ok () := rfl
  have hdoubles : ∀ n ∈ Frame.lengths 64 48 4 ++ [1, 256], ¬Number.Overflows n := by
    unfold Number.Overflows
    decide +kernel
  have hcramped : Cramped vastPath 64 48 4 :=
    ⟨⟨-1e308, 1e308, 0, 1⟩, Result.eq_ok_of_toOption (by decide +kernel),
      .inl ⟨by decide +kernel, .inr (by decide +kernel)⟩⟩
  refine ⟨hvalid, ?_⟩
  obtain ⟨⟨result, after, hsave, houtcome, hstore, -⟩, -⟩ :=
    @perform_save_outcome vastPath vastSettings .null _ _ _ _ _ {} ⟨["vast.svg"], false⟩ hfinite hvalid hwhole
      (.inl rfl) 6 rfl (by simp [Store.find?])
  refine hsave.trans ?_
  cases houtcome with
  | noVertices h => exact absurd h (by decide)
  | overflow hn h => exact absurd h (hdoubles _ hn)
  | divisionByZero h => rw [hstore _ rfl]
  | degenerateBounds h | badValue h | drawn h => exact absurd hcramped h

def diagonalPath : Path Float :=
  ⟨#[#[⟨0, 0⟩, ⟨1, 1⟩]]⟩

def narrowSettings : Settings where
  width := .int 33
  height := .int 33
  margin := .int 16

/-- With a single row and column to be filled the scale is nothing, and the margin is divided by it. -/
theorem narrow_division_by_zero :
    narrowSettings.validate = .ok () ∧
      (diagonalPath.vertices.all fun p => p.x.isFinite && p.y.isFinite) = true ∧
      (save diagonalPath ⟨["out.svg"], false⟩ narrowSettings .null (.int 6)).perform {} =
        (.error .divisionByZero, {}) := by
  have hbounds : diagonalPath.bounds = .ok ⟨0, 1, 0, 1⟩ := Result.eq_ok_of_toOption (by decide +kernel)
  have hframe : Frame.ofValues (.int 33) (.int 33) (.int 16) = .ok ⟨0, 0, 16⟩ :=
    Result.eq_ok_of_toOption (by decide +kernel)
  refine ⟨rfl, by decide +kernel, ?_⟩
  exact perform_save_of_error (lines_of_beq_zero hbounds hframe (by decide +kernel)) _ _

end Svg

end TurtleCurves
