import TurtleCurves.Proofs.Fault
import TurtleCurves.Proofs.Number.Amount
import TurtleCurves.Settings.Rules

/-!
This module contains what the rules of settings say about amounts. Of numbers that are defined every rule says
what it should, infinite ones included. The rules refuse by comparing, and nothing compares with an undefined
number, so that all but the last one let it through.
-/

namespace TurtleCurves

namespace Value

variable {v : Value} {n : Number} {amount : EReal} {k : Int}

noncomputable def amount? (v : Value) : Option EReal :=
  (Number.ofValue? v).bind Number.amount?

theorem amount?_of_toNumber (h : v.toNumber = .ok n) : v.amount? = n.amount? := by
  unfold toNumber at h
  unfold amount?
  split at h
  . next hnumber =>
    cases h
    rw [hnumber]
    rfl
  . cases h

theorem undefined_of_amount? (h : v.toNumber = .ok n) (hnone : v.amount? = none) :
    ∃ x, v = .float x ∧ Binary.view x = .undefined := by
  rw [amount?_of_toNumber h] at hnone
  cases v with
  | float x =>
    cases h
    refine ⟨x, rfl, ?_⟩
    rw [Number.amount?_real] at hnone
    cases hview : Binary.view x with
    | undefined => rfl
    | infinite | finite =>
      rw [hview] at hnone
      cases hnone
  | bool | int =>
    cases h
    rw [Number.amount?_whole] at hnone
    cases hnone
  | null | text | list | object => cases h

theorem coe_le_of_not_lt (hn : v.toNumber = .ok n) (h : n.lt (.whole k) = false)
    (hv : v.amount? = some amount) : ((k : Real) : EReal) ≤ amount := by
  rw [amount?_of_toNumber hn] at hv
  exact not_lt.1 ((Number.lt_iff hv (Number.amount?_whole k)).not.1 (by simp [h]))

theorem coe_lt_of_not_le (hn : v.toNumber = .ok n) (h : n.le (.whole k) = false)
    (hv : v.amount? = some amount) : ((k : Real) : EReal) < amount := by
  rw [amount?_of_toNumber hn] at hv
  exact not_le.1 ((Number.le_iff hv (Number.amount?_whole k)).not.1 (by simp [h]))

end Value

namespace Settings

variable {s : Settings} {v : Value} {fault : Fault}

theorem of_refuse (bad : Number → Bool)
    (h : (do if bad (← v.toNumber) then .error fault : Result Unit) = .ok ()) :
    ∃ n, v.toNumber = .ok n ∧ bad n = false := by
  rw [Result.bind_eq_ok] at h
  obtain ⟨n, hn, h⟩ := h
  refine ⟨n, hn, ?_⟩
  cases hbad : bad n with
  | true =>
    rw [hbad] at h
    cases h
  | false => rfl

theorem of_refuse_first {bad : Number → Bool} {rest : Number → Result Unit}
    (h : (do
      let n ← v.toNumber
      if bad n then .error fault
      rest n : Result Unit) = .ok ()) :
    ∃ n, v.toNumber = .ok n ∧ bad n = false ∧ rest n = .ok () := by
  rw [Result.bind_eq_ok] at h
  obtain ⟨n, hn, h⟩ := h
  refine ⟨n, hn, ?_⟩
  cases hbad : bad n with
  | true =>
    rw [hbad] at h
    cases h
  | false =>
    rw [hbad] at h
    exact ⟨rfl, h⟩

theorem of_checkLineWidth (h : s.checkLineWidth = .ok ()) :
    ∃ n, s.lineWidth.toNumber = .ok n ∧ n.lt (.whole 1) = false :=
  of_refuse _ h

theorem of_checkGradientCount (h : s.checkGradientCount = .ok ()) :
    ∃ n, s.gradientCount.toNumber = .ok n ∧ n.lt (.whole 2) = false :=
  of_refuse _ h

theorem of_checkMaxSymbols (h : s.checkMaxSymbols = .ok ()) :
    ∃ n, s.maxSymbols.toNumber = .ok n ∧ n.le (.whole 0) = false :=
  of_refuse _ h

theorem of_checkSize (h : s.checkSize = .ok ()) :
    ∃ width height, s.width.toNumber = .ok width ∧ s.height.toNumber = .ok height ∧
      width.le (.whole 0) = false ∧ height.le (.whole 0) = false := by
  obtain ⟨width, hwidth, hwide, h⟩ := of_refuse_first h
  obtain ⟨height, hheight, hhigh⟩ := of_refuse _ h
  exact ⟨width, height, hwidth, hheight, hwide, hhigh⟩

theorem of_checkMargin (h : s.checkMargin = .ok ()) :
    ∃ margin width height, s.margin.toNumber = .ok margin ∧ s.width.toNumber = .ok width ∧
      s.height.toNumber = .ok height ∧ margin.lt (.whole 0) = false ∧
      (width.lesser height).le margin.double = false := by
  obtain ⟨margin, hmargin, hleast, h⟩ := of_refuse_first h
  rw [Result.bind_eq_ok] at h
  obtain ⟨width, hwidth, h⟩ := h
  obtain ⟨height, hheight, hroom⟩ := of_refuse (fun height => (width.lesser height).le margin.double) h
  exact ⟨margin, width, height, hmargin, hwidth, hheight, hleast, hroom⟩

theorem of_checkJpegQuality (h : s.checkJpegQuality = .ok ()) :
    ∃ quality, s.jpegQuality.toNumber = .ok quality ∧ (Number.whole 1).le quality ∧
      quality.le (.whole 100) := by
  obtain ⟨quality, hquality, hbounds⟩ :=
    of_refuse (fun quality => !((Number.whole 1).le quality && quality.le (.whole 100))) h
  simp only [Bool.not_eq_false', Bool.and_eq_true] at hbounds
  exact ⟨quality, hquality, hbounds⟩

theorem of_validate_numbers (h : s.validate = .ok ()) :
    s.checkSize = .ok () ∧ s.checkMargin = .ok () ∧ s.checkLineWidth = .ok () ∧
      s.checkGradientCount = .ok () ∧ s.checkMaxSymbols = .ok () ∧ s.checkJpegQuality = .ok () := by
  unfold validate at h
  simp only [Result.bind_eq_ok] at h
  obtain ⟨⟨⟩, hsize, ⟨⟩, hmargin, ⟨⟩, hline, -, -, ⟨⟩, hcount, ⟨⟩, hsymbols, hquality⟩ := h
  exact ⟨hsize, hmargin, hline, hcount, hsymbols, hquality⟩

theorem exists_toNumber {field : Field} (h : s.validate = .ok ()) (hfield : field.reading = .whole) :
    ∃ n, (s.get field).toNumber = .ok n := by
  obtain ⟨hsize, hmargin, hline, hcount, hsymbols, hquality⟩ := of_validate_numbers h
  obtain ⟨width, height, hwidth, hheight, -, -⟩ := of_checkSize hsize
  obtain ⟨margin, -, -, hmargin, -⟩ := of_checkMargin hmargin
  obtain ⟨line, hline, -⟩ := of_checkLineWidth hline
  obtain ⟨count, hcount, -⟩ := of_checkGradientCount hcount
  obtain ⟨symbols, hsymbols, -⟩ := of_checkMaxSymbols hsymbols
  obtain ⟨quality, hquality, -⟩ := of_checkJpegQuality hquality
  cases field with
  | width => exact ⟨width, hwidth⟩
  | height => exact ⟨height, hheight⟩
  | margin => exact ⟨margin, hmargin⟩
  | lineWidth => exact ⟨line, hline⟩
  | gradientCount => exact ⟨count, hcount⟩
  | maxSymbols => exact ⟨symbols, hsymbols⟩
  | jpegQuality => exact ⟨quality, hquality⟩
  | background | gradientStart | gradientEnd | saveMetadata => cases hfield

theorem room_of_checkMargin {margin width height : EReal} (h : s.checkMargin = .ok ())
    (hmargin : s.margin.amount? = some margin) (hwidth : s.width.amount? = some width)
    (hheight : s.height.amount? = some height) : 0 ≤ margin ∧ 2 * margin < width ∧ 2 * margin < height := by
  obtain ⟨m, w, l, hm, hw, hl, hleast, hroom⟩ := of_checkMargin h
  have hnonneg : 0 ≤ margin := by simpa using Value.coe_le_of_not_lt hm hleast hmargin
  rw [Value.amount?_of_toNumber hm] at hmargin
  rw [Value.amount?_of_toNumber hw] at hwidth
  rw [Value.amount?_of_toNumber hl] at hheight
  obtain ⟨doubled, hdoubled, hle⟩ := Number.exists_amount?_double hmargin hnonneg
  have hlt : doubled < min width height :=
    not_le.1 ((Number.le_iff (Number.amount?_lesser hwidth hheight) hdoubled).not.1 (by simp [hroom]))
  exact ⟨hnonneg, hle.trans_lt (lt_min_iff.1 hlt).1, hle.trans_lt (lt_min_iff.1 hlt).2⟩

/--
Settings that keep the rules have the amounts that the rules ask for, as far as these are defined: only an
undefined double has none, and the quality of a picture is always defined.
-/
theorem amounts_of_validate (h : s.validate = .ok ()) :
    (∀ field : Field, field.reading = .whole → (s.get field).amount? = none →
      ∃ x, s.get field = .float x ∧ Binary.view x = .undefined) ∧
    (∀ width, s.width.amount? = some width → 0 < width) ∧
    (∀ height, s.height.amount? = some height → 0 < height) ∧
    (∀ margin, s.margin.amount? = some margin → 0 ≤ margin) ∧
    (∀ margin width height, s.margin.amount? = some margin → s.width.amount? = some width →
      s.height.amount? = some height → 2 * margin < width ∧ 2 * margin < height) ∧
    (∀ line, s.lineWidth.amount? = some line → 1 ≤ line) ∧
    (∀ count, s.gradientCount.amount? = some count → 2 ≤ count) ∧
    (∀ symbols, s.maxSymbols.amount? = some symbols → 0 < symbols) ∧
    ∃ quality, s.jpegQuality.amount? = some quality ∧ 1 ≤ quality ∧ quality ≤ 100 := by
  obtain ⟨hsize, hmargin, hline, hcount, hsymbols, hquality⟩ := of_validate_numbers h
  obtain ⟨width, height, hwidth, hheight, hwide, hhigh⟩ := of_checkSize hsize
  obtain ⟨line, hline, hvisible⟩ := of_checkLineWidth hline
  obtain ⟨count, hcount, hends⟩ := of_checkGradientCount hcount
  obtain ⟨symbols, hsymbols, hsome⟩ := of_checkMaxSymbols hsymbols
  refine ⟨fun field hfield hnone => ?_, fun v hv => ?_, fun v hv => ?_, fun v hv => ?_,
    fun m v w hm hv hw => (room_of_checkMargin hmargin hm hv hw).2, fun v hv => ?_, fun v hv => ?_,
    fun v hv => ?_, ?_⟩
  . obtain ⟨n, hn⟩ := exists_toNumber h hfield
    exact Value.undefined_of_amount? hn hnone
  . simpa using Value.coe_lt_of_not_le hwidth hwide hv
  . simpa using Value.coe_lt_of_not_le hheight hhigh hv
  . obtain ⟨margin, -, -, hmargin, -, -, hnonneg, -⟩ := of_checkMargin hmargin
    simpa using Value.coe_le_of_not_lt hmargin hnonneg hv
  . simpa using Value.coe_le_of_not_lt hline hvisible hv
  . exact_mod_cast Value.coe_le_of_not_lt hcount hends hv
  . simpa using Value.coe_lt_of_not_le hsymbols hsome hv
  . obtain ⟨quality, hquality, hleast, hmost⟩ := of_checkJpegQuality hquality
    obtain ⟨amount, hamount⟩ := Number.exists_amount?_of_le hleast
    refine ⟨amount, by rw [Value.amount?_of_toNumber hquality, hamount], ?_, ?_⟩
    . simpa using (Number.le_iff (Number.amount?_whole 1) hamount).1 hleast
    . exact_mod_cast (Number.le_iff hamount (Number.amount?_whole 100)).1 hmost

/-- Settings with whole numbers and doubles, one of which is infinite and one undefined. -/
def mixed : Settings where
  width := .float 800.5
  height := .int 600
  margin := .float 16.25
  lineWidth := .float (0 / 0)
  maxSymbols := .float (1 / 0)
  jpegQuality := .float 87.5

theorem amounts_of_validate_mixed :
    mixed.validate = .ok () ∧
      (∃ x, mixed.lineWidth = .float x ∧ Binary.view x = .undefined) ∧
      (∃ margin width height, mixed.margin.amount? = some margin ∧ mixed.width.amount? = some width ∧
        mixed.height.amount? = some height ∧
        0 < width ∧ 0 < height ∧ 0 ≤ margin ∧ 2 * margin < width ∧ 2 * margin < height) ∧
      mixed.maxSymbols.amount? = some ⊤ ∧
      ∃ quality, mixed.jpegQuality.amount? = some quality ∧ 1 ≤ quality ∧ quality ≤ 100 := by
  have hvalid : mixed.validate = .ok () := rfl
  have hdenotesMargin : Binary.Denotes 16.25 (65 / 4) :=
    ⟨⟨false, 65 * 2 ^ 46, -48⟩, by rfl, by norm_num [Binary.value]⟩
  have hdenotesWidth : Binary.Denotes 800.5 (1601 / 2) :=
    ⟨⟨false, 1601 * 2 ^ 42, -43⟩, by rfl, by norm_num [Binary.value]⟩
  have hmargin : mixed.margin.amount? = some (((65 / 4 : Rat) : Real) : EReal) :=
    Number.amount?_of_denotes hdenotesMargin
  have hwidth : mixed.width.amount? = some (((1601 / 2 : Rat) : Real) : EReal) :=
    Number.amount?_of_denotes hdenotesWidth
  have hheight : mixed.height.amount? = some ((600 : Int) : Real) := Number.amount?_whole 600
  obtain ⟨hundefined, hwide, hhigh, hnonneg, hroom, -, -, -, hquality⟩ := amounts_of_validate hvalid
  refine ⟨hvalid, hundefined .lineWidth rfl rfl, ?_, rfl, hquality⟩
  refine ⟨_, _, _, hmargin, hwidth, hheight, hwide _ hwidth, hhigh _ hheight, hnonneg _ hmargin, ?_⟩
  exact hroom _ _ _ hmargin hwidth hheight

/-- An undefined number is accepted wherever it is not a quality. -/
theorem undefined_number_accepted :
    (∀ field ∈ [Field.width, .height, .margin, .lineWidth, .gradientCount, .maxSymbols],
      (({} : Settings).set field (.float (0 / 0))).validate = .ok () ∧
        ¬∃ amount, ((({} : Settings).set field (.float (0 / 0))).get field).amount? = some amount) ∧
    (({} : Settings).set .jpegQuality (.float (0 / 0))).validate = .error (.settings .jpegQuality) := by
  have hundefined : Value.amount? (.float (0 / 0)) = none := rfl
  refine ⟨fun field hfield => ⟨?_, ?_⟩, rfl⟩
  . simp only [List.mem_cons, List.not_mem_nil, or_false] at hfield
    obtain rfl | rfl | rfl | rfl | rfl | rfl := hfield <;> rfl
  . rw [get_set_self, hundefined]
    rintro ⟨_, hsome⟩
    cases hsome

end Settings
end TurtleCurves
