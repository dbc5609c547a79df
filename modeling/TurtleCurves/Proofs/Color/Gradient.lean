import TurtleCurves.Color.Gradient
import TurtleCurves.Proofs.Binary.Whole
import TurtleCurves.Proofs.Settings.Section

/-!
This module contains which gradients can be read. Between two colors there is one for each whole number of
colors, within bounds; the rules of settings let through counts that are no whole numbers, for which there
is none.
-/

namespace TurtleCurves

namespace Gradient

variable {count : Value}

theorem mapM_toNumber_toValue (c : Color) :
    (c.toList.map fun b => Value.int b.toNat).mapM Value.toNumber =
      .ok (c.toList.map fun b => Number.whole b.toNat) := by
  rw [List.mapM_map]
  exact Result.mapM_eq_ok fun b _ => rfl

theorem toFloat?_byte (b : UInt8) :
    (Number.whole (b.toNat : Int)).toFloat? = some (Float.ofNat b.toNat) :=
  Number.toFloat?_whole (b.toNat_lt.trans (by norm_num))

theorem readEnd_toValue (side : GradientEnd) (c : Color) :
    readEnd side c.toValue = .ok (c.map fun b => Float.ofNat b.toNat) := by
  have hshape : c.toValue.shape? = some [4] := rfl
  have helements : c.toValue.elements = .ok (c.toList.map fun b => Value.int b.toNat) := rfl
  have hrange : (c.toList.map fun b => Number.whole b.toNat).any
      (fun n => n.lt (.whole 0) || (Number.whole maxChannel).lt n) = false := by
    rw [List.any_eq_false]
    intro n hn
    obtain ⟨b, -, rfl⟩ := List.mem_map.1 hn
    have hb := b.toNat_lt
    simp only [Number.lt_whole, maxChannel]
    simp
    omega
  have hchannels : ((c.toList.map fun b => Number.whole b.toNat).mapM Number.toFloat?).bind
      Channels.ofList? = some (c.map fun b => Float.ofNat b.toNat) := by
    simp [Channels.toList, toFloat?_byte, Channels.ofList?, Channels.map]
  unfold readEnd
  simp only [hshape, helements, mapM_toNumber_toValue, hrange, hchannels, bind, Except.bind, pure,
    Except.pure]
  rfl

theorem readCount_natCast {n : Nat} (hleast : 2 ≤ n) (hmost : n ≤ maxCount) :
    readCount (.int n) = .ok ⟨n, hleast⟩ := by
  have hfloat := Number.toFloat?_whole (hmost.trans_lt (show maxCount < 2 ^ 64 by decide))
  unfold readCount
  simp only [Int.toNat_natCast]
  rw [dif_pos hleast, hfloat, if_neg (by simp), if_neg (Nat.not_lt.2 hmost)]

theorem of_readCount {n : { n : Nat // 2 ≤ n }} (h : readCount count = .ok n) :
    ∃ n : Int, count = .int n ∧ 2 ≤ n ∧ n ≤ maxCount := by
  unfold readCount at h
  split at h
  . next n =>
    split at h
    . next hleast =>
      split at h
      . cases h
      . split at h
        . cases h
        . next hmost => exact ⟨n, rfl, by omega, by omega⟩
    . cases h
  . cases h

theorem le_maxCount_of_readCount {n : { n : Nat // 2 ≤ n }} (h : readCount count = .ok n) :
    n.1 ≤ maxCount := by
  obtain ⟨m, rfl, hleast, hmost⟩ := of_readCount h
  obtain ⟨m, rfl⟩ := Int.eq_ofNat_of_zero_le (show 0 ≤ m by omega)
  have hmost : m ≤ maxCount := by exact_mod_cast hmost
  rw [readCount_natCast (by omega) hmost, Except.ok.injEq] at h
  rwa [← h]

def between (first last : Color) (n : Nat) (hleast : 2 ≤ n) : Gradient where
  first := first.map fun b => Float.ofNat b.toNat
  last := last.map fun b => Float.ofNat b.toNat
  count := n
  two_le_count := hleast

theorem read_toValue (first last : Color) (count : Value) :
    read first.toValue last.toValue count = do
      if (← count.toNumber).lt (.whole 2) then
        .error (.violated (.fewColors count))
      let n ← readCount count
      return between first last n.1 n.2 := by
  unfold read
  simp only [readEnd_toValue, bind, Except.bind, pure, Except.pure]
  rfl

theorem read_eq_between (first last : Color) {n : Nat} (hleast : 2 ≤ n) (hmost : n ≤ maxCount) :
    read first.toValue last.toValue (.int n) = .ok (between first last n hleast) := by
  have hlt : (Number.whole n).lt (.whole 2) = false := by
    rw [Number.lt_whole]
    exact decide_eq_false (by omega)
  rw [read_toValue]
  simp only [Value.toNumber_int, hlt, readCount_natCast hleast hmost, bind, Except.bind, pure, Except.pure]
  rfl

theorem exists_read_iff (first last : Color) :
    (∃ g, read first.toValue last.toValue count = .ok g) ↔
      ∃ n : Int, count = .int n ∧ 2 ≤ n ∧ n ≤ maxCount := by
  constructor
  . rintro ⟨g, h⟩
    unfold read at h
    rw [Result.bind_eq_ok] at h
    obtain ⟨number, -, h⟩ := h
    split at h
    . cases h
    . simp only [Result.bind_eq_ok] at h
      obtain ⟨-, -, -, -, n, hn, -⟩ := h
      exact of_readCount hn
  . rintro ⟨n, rfl, hleast, hmost⟩
    obtain ⟨k, rfl⟩ := Int.eq_ofNat_of_zero_le (show 0 ≤ n by omega)
    exact ⟨_, read_eq_between first last (by omega) (by exact_mod_cast hmost)⟩

end Gradient

namespace Settings

variable {s : Settings} {fields : Fields} {field : Field}

theorem exists_color_of_checkColor {channels : List Int} (h : s.checkColor field = .ok ())
    (hchannels : s.get field = .list (channels.map .int)) : ∃ c : Color, s.get field = c.toValue := by
  have hbytes := of_checkColor h hchannels
  have hlength : channels.length = 4 := by
    unfold checkColor at h
    rw [hchannels, Result.bind_eq_ok] at h
    obtain ⟨isColor, hcolor, h⟩ := h
    by_contra hlength
    change (if (channels.map Value.int).length = 4 then _ else Except.ok false) = _ at hcolor
    rw [List.length_map, if_neg hlength] at hcolor
    cases hcolor
    cases h
  have hbyte : ∀ n ∈ channels, ((UInt8.ofNat n.toNat).toNat : Int) = n := by
    intro n hn
    have := hbytes n hn
    unfold maxChannel at this
    rw [UInt8.toNat_ofNat']
    omega
  match channels, hlength with
  | [red, green, blue, alpha], _ =>
    simp only [List.forall_mem_cons] at hbyte
    refine ⟨⟨.ofNat red.toNat, .ofNat green.toNat, .ofNat blue.toNat, .ofNat alpha.toNat⟩, ?_⟩
    rw [hchannels]
    simp only [Color.toValue, Channels.toList, List.map_cons, List.map_nil, hbyte]

theorem exists_color_of_ofValue (hkeys : fields.keys.Nodup) (h : ofValue (.object fields) = .ok s)
    (hfield : field ∈ Field.colors) : ∃ c : Color, s.get field = c.toValue := by
  obtain ⟨channels, hchannels, -⟩ := exists_channels_of_ofValue hkeys h hfield
  obtain ⟨_, -, -, hvalid⟩ := ofValue_eq_ok h
  exact exists_color_of_checkColor (of_validate hvalid hfield) hchannels

theorem two_le_of_validate {n : Int} (h : s.validate = .ok ()) (hcount : s.gradientCount = .int n) :
    2 ≤ n := by
  unfold validate at h
  simp only [Result.bind_eq_ok] at h
  obtain ⟨-, -, -, -, -, -, -, -, _, hcheck, -⟩ := h
  unfold checkGradientCount at hcheck
  rw [hcount, Value.toNumber_int] at hcheck
  change (if (Number.whole n).lt (.whole 2) = true then Except.error _ else Except.ok ()) = _ at hcheck
  rw [Number.lt_whole] at hcheck
  by_contra hless
  rw [if_pos (decide_eq_true (Int.not_le.1 hless))] at hcheck
  cases hcheck

/--
With settings that are read from data any number of segments can be colored, if the number of colors is a
whole number up to the most. With any other number of colors none can.
-/
theorem colored_iff_whole (hkeys : fields.keys.Nodup) (h : ofValue (.object fields) = .ok s) :
    (∃ n : Int, s.gradientCount = .int n ∧ n ≤ Gradient.maxCount) ↔
      ∀ segments, ∃ g, Gradient.read s.gradientStart s.gradientEnd s.gradientCount = .ok g ∧
        (g.segmentColors segments).size = segments := by
  obtain ⟨_, -, -, hvalid⟩ := ofValue_eq_ok h
  obtain ⟨first, hfirst⟩ : ∃ c : Color, s.gradientStart = c.toValue :=
    exists_color_of_ofValue hkeys h (mem_colors.2 (rfl : Field.gradientStart.reading = .color))
  obtain ⟨last, hlast⟩ : ∃ c : Color, s.gradientEnd = c.toValue :=
    exists_color_of_ofValue hkeys h (mem_colors.2 (rfl : Field.gradientEnd.reading = .color))
  rw [hfirst, hlast]
  constructor
  . rintro ⟨n, hcount, hmost⟩ segments
    have hleast := two_le_of_validate hvalid hcount
    obtain ⟨g, hg⟩ := (Gradient.exists_read_iff first last).2 ⟨n, hcount, hleast, hmost⟩
    exact ⟨g, hg, g.size_segmentColors segments⟩
  . intro hcolored
    obtain ⟨g, hg, -⟩ := hcolored 0
    obtain ⟨n, hcount, -, hmost⟩ := (Gradient.exists_read_iff first last).1 ⟨g, hg⟩
    exact ⟨n, hcount, hmost⟩

theorem colored_iff_whole_five :
    ofValue (.object [("gradient_count", .int 5)]) = .ok { gradientCount := .int 5 } ∧
      ∀ segments, ∃ g, Gradient.read Palette.white.toValue Palette.gray.toValue (.int 5) = .ok g ∧
        (g.segmentColors segments).size = segments := by
  have hread : ofValue (.object [("gradient_count", .int 5)]) = .ok { gradientCount := .int 5 } :=
    ofValue_of_isKnown (by decide) rfl rfl rfl
  exact ⟨hread, (colored_iff_whole (by decide) hread).1 ⟨5, rfl, by decide⟩⟩

/-- A fraction is accepted for the number of colors, and then nothing can be colored. -/
theorem fractional_count_accepted :
    ofValue (.object [("gradient_count", .float 2.5)]) = .ok { gradientCount := .float 2.5 } ∧
      Gradient.read Palette.white.toValue Palette.gray.toValue (.float 2.5) = .error .wrongSort := by
  constructor
  . exact ofValue_of_isKnown (by decide) rfl rfl rfl
  . rfl

end Settings
end TurtleCurves
