import TurtleCurves.Proofs.Color.Interpolation

/-!
This module contains how the colors of a gradient are spread over the segments of a path. The first segment
has the first color and the last segment the last; in between the colors follow one another as evenly as
whole numbers allow. This holds as long as the products that lead to the indices fit in a word.
-/

namespace TurtleCurves

structure Spread (segments count : Nat) (index : Nat → Int) : Prop where
  first : index 0 = 0
  last : index (segments - 1) = (count : Int) - 1
  range : ∀ i < segments, 0 ≤ index i ∧ index i < count
  mono : ∀ i j, i ≤ j → j < segments → index i ≤ index j
  /-- No color is skipped if there are enough segments. -/
  onto : count ≤ segments → ∀ row : Nat, row < count → ∃ i < segments, index i = row
  /-- No color is repeated if there are enough colors. -/
  distinct : segments ≤ count → ∀ i j, i < segments → j < segments → index i = index j → i = j
  /-- No step is longer than another by more than one. -/
  even : ∀ i j, i + 1 < segments → j + 1 < segments →
    index (i + 1) - index i ≤ index (j + 1) - index j + 1

theorem Spread.congr {segments count : Nat} {index index' : Nat → Int} (h : Spread segments count index)
    (hpos : 0 < segments) (heq : ∀ i < segments, index' i = index i) : Spread segments count index' where
  first := (heq 0 hpos).trans h.first
  last := (heq _ (by omega)).trans h.last
  range i hi := by
    rw [heq i hi]
    exact h.range i hi
  mono i j hij hj := by
    rw [heq i (by omega), heq j hj]
    exact h.mono i j hij hj
  onto hle row hrow := by
    obtain ⟨i, hi, hindex⟩ := h.onto hle row hrow
    exact ⟨i, hi, (heq i hi).trans hindex⟩
  distinct hle i j hi hj hindex := by
    rw [heq i hi, heq j hj] at hindex
    exact h.distinct hle i j hi hj hindex
  even i j hi hj := by
    rw [heq i (by omega), heq (i + 1) hi, heq j (by omega), heq (j + 1) hj]
    exact h.even i j hi hj

namespace Gradient

variable {g : Gradient} {bits segments count i j : Nat}

/-- The index of the color of a segment as it is without any bound on products. -/
def quotient (count segments segment : Nat) : Nat :=
  segment * (count - 1) / (segments - 1)

theorem quotient_mono (h : i ≤ j) : quotient count segments i ≤ quotient count segments j := by
  unfold quotient
  gcongr

theorem quotient_last (hsegments : 2 ≤ segments) :
    quotient count segments (segments - 1) = count - 1 :=
  Nat.mul_div_cancel_left _ (by omega)

theorem quotient_lt (hcount : 2 ≤ count) (hi : i < segments) : quotient count segments i < count := by
  have hle : quotient count segments i ≤ count - 1 := by
    apply Nat.div_le_of_le_mul
    gcongr
    omega
  omega

theorem quotient_succ (count : Nat) (hsegments : 2 ≤ segments) (i : Nat) :
    quotient count segments i + (count - 1) / (segments - 1) ≤ quotient count segments (i + 1) ∧
      quotient count segments (i + 1) ≤
        quotient count segments i + (count - 1) / (segments - 1) + 1 := by
  unfold quotient
  rw [Nat.add_one_mul]
  rw [Nat.add_div (by omega)]
  split <;> omega

theorem quotient_lt_of_lt (hsegments : 2 ≤ segments) (hle : segments ≤ count) (h : i < j) :
    quotient count segments i < quotient count segments j := by
  have hstep : 1 ≤ (count - 1) / (segments - 1) := by
    rw [Nat.one_le_div_iff (by omega)]
    omega
  calc
    quotient count segments i < quotient count segments (i + 1) := by
      have := (quotient_succ count hsegments i).1
      omega
    _ ≤ quotient count segments j := quotient_mono h

theorem exists_quotient_eq (hcount : 2 ≤ count) (hle : count ≤ segments) {row : Nat}
    (hrow : row < count) : ∃ i < segments, quotient count segments i = row := by
  -- The first segment that is far enough for a color has that color.
  obtain ⟨a, rfl⟩ : ∃ a, count = a + 1 := ⟨count - 1, by omega⟩
  obtain ⟨b, rfl⟩ : ∃ b, segments = b + 1 := ⟨segments - 1, by omega⟩
  have hpos : 0 < a := by omega
  refine ⟨(row * b + (a - 1)) / a, ?_, ?_⟩
  . rw [Nat.div_lt_iff_lt_mul hpos]
    have hbound : row * b ≤ a * b := Nat.mul_le_mul_right b (by omega)
    have : (b + 1) * a = a * b + a := by ring
    omega
  . have hdiv := Nat.div_add_mod (row * b + (a - 1)) a
    have hmod := Nat.mod_lt (row * b + (a - 1)) hpos
    unfold quotient
    rw [Nat.add_sub_cancel, Nat.add_sub_cancel]
    rw [Nat.div_eq_iff (by omega), mul_comm _ a]
    rw [mul_comm row b] at *
    omega

theorem spread_quotient (hsegments : 2 ≤ segments) (hcount : 2 ≤ count) :
    Spread segments count fun i => quotient count segments i where
  first := by simp [quotient]
  last := by
    rw [quotient_last hsegments]
    omega
  range _ hi := ⟨Int.natCast_nonneg _, by exact_mod_cast quotient_lt hcount hi⟩
  mono _ _ hij _ := by exact_mod_cast quotient_mono hij
  onto hle _ hrow := by exact_mod_cast exists_quotient_eq hcount hle hrow
  distinct hle i j _ _ heq := by
    have heq : quotient count segments i = quotient count segments j := by exact_mod_cast heq
    rcases lt_trichotomy i j with hlt | hij | hlt
    . exact absurd heq (quotient_lt_of_lt hsegments hle hlt).ne
    . exact hij
    . exact absurd heq (quotient_lt_of_lt hsegments hle hlt).ne'
  even i j _ _ := by
    have hi := quotient_succ count hsegments i
    have hj := quotient_succ count hsegments j
    omega

/-! The words in which the products are computed. -/

theorem bmod_eq_self_iff {n : Nat} : Int.bmod n (2 ^ bits) = n ↔ n < 2 ^ (bits - 1) := by
  have hhalf : (((2 ^ bits : Nat) : Int) + 1) / 2 = (2 ^ (bits - 1) : Nat) := by
    cases bits with
    | zero => rfl
    | succ b =>
      rw [Nat.add_sub_cancel, pow_succ]
      omega
  constructor
  . intro h
    have hlt := @Int.bmod_lt n (2 ^ bits) (by positivity)
    rw [h, hhalf] at hlt
    exact_mod_cast hlt
  . intro h
    apply Int.bmod_eq_of_le
    . omega
    . rw [hhalf]
      exact_mod_cast h

theorem bmod_natCast_bounds (n : Nat) {m : Nat} (hm : 0 < m) :
    -(n : Int) ≤ Int.bmod n m ∧ Int.bmod n m ≤ n := by
  have hle : (n : Int) % m ≤ n := by exact_mod_cast Nat.mod_le n m
  have hnonneg := Int.emod_nonneg (n : Int) (show (m : Int) ≠ 0 by omega)
  unfold Int.bmod
  dsimp only
  split <;> omega

theorem indexIn_eq_bmod (bits count segments i : Nat) :
    indexIn bits count segments i
      =
    Int.bmod (i * (count - 1) : Nat) (2 ^ bits) / ((segments : Int) - 1) := by
  rfl

theorem indexIn_eq (h : i * (count - 1) < 2 ^ (bits - 1)) (hsegments : 2 ≤ segments) :
    indexIn bits count segments i = quotient count segments i := by
  rw [indexIn_eq_bmod]
  unfold quotient
  rw [bmod_eq_self_iff.2 h]
  push_cast [show 1 ≤ segments by omega]
  rfl

theorem indexIn_of_fits (hsegments : 2 ≤ segments)
    (hfits : (segments - 1) * (count - 1) < 2 ^ (bits - 1)) (hi : i < segments) :
    indexIn bits count segments i = quotient count segments i := by
  have hle : i * (count - 1) ≤ (segments - 1) * (count - 1) := Nat.mul_le_mul_right _ (by omega)
  exact indexIn_eq (hle.trans_lt hfits) hsegments

theorem indexIn_bounds (hcount : 2 ≤ count) (hi : i < segments) :
    -(count : Int) ≤ indexIn bits count segments i ∧ indexIn bits count segments i < count := by
  obtain ⟨hlow, hhigh⟩ := bmod_natCast_bounds (i * (count - 1)) (show 0 < 2 ^ bits by positivity)
  obtain hone | htwo : segments = 1 ∨ 2 ≤ segments := by omega
  . subst hone
    rw [indexIn_eq_bmod]
    simp
    omega
  have hproduct : ((i * (count - 1) : Nat) : Int) ≤ ((count : Int) - 1) * (segments - 1) := by
    have hle : i * (count - 1) ≤ (segments - 1) * (count - 1) := Nat.mul_le_mul_right _ (by omega)
    calc
      ((i * (count - 1) : Nat) : Int) ≤ ((segments - 1) * (count - 1) : Nat) := by exact_mod_cast hle
      _ = ((count : Int) - 1) * (segments - 1) := by
        push_cast [show 1 ≤ segments by omega, show 1 ≤ count by omega]
        ring
  have hpos : (0 : Int) < (segments : Int) - 1 := by omega
  rw [indexIn_eq_bmod]
  constructor
  . rw [Int.le_ediv_iff_mul_le hpos]
    linarith
  . rw [Int.ediv_lt_iff_lt_mul hpos]
    linarith

theorem natCast_indexOf (hi : i < segments) :
    (g.indexOf segments i : Int) =
      if 0 ≤ indexIn wordBits g.count segments i then indexIn wordBits g.count segments i
      else indexIn wordBits g.count segments i + g.count := by
  obtain ⟨hlow, hhigh⟩ := @indexIn_bounds wordBits _ _ _ g.two_le_count hi
  have hcount := g.two_le_count
  unfold indexOf
  rw [Int.toNat_of_nonneg (Int.emod_nonneg _ (by omega))]
  split
  . next hnonneg => exact Int.emod_eq_of_lt hnonneg hhigh
  . next hnegative =>
    rw [← Int.add_emod_right]
    exact Int.emod_eq_of_lt (by omega) (by omega)

theorem spread_indexIn_iff (hsegments : 2 ≤ segments) (hcount : 2 ≤ count) :
    Spread segments count (indexIn bits count segments) ↔
      (segments - 1) * (count - 1) < 2 ^ (bits - 1) := by
  constructor
  . intro h
    -- An index that is as large as the last one has a product that is as large, and so that fits.
    have hlast := h.last
    rw [indexIn_eq_bmod] at hlast
    have hbounds := bmod_natCast_bounds ((segments - 1) * (count - 1)) (show 0 < 2 ^ bits by positivity)
    have hle := (Int.le_ediv_iff_mul_le (show (0 : Int) < (segments : Int) - 1 by omega)).1 hlast.ge
    rw [← bmod_eq_self_iff]
    apply le_antisymm hbounds.2
    push_cast [show 1 ≤ segments by omega, show 1 ≤ count by omega] at hle ⊢
    linarith
  . intro hfits
    exact (spread_quotient hsegments hcount).congr (by omega) fun i hi => indexIn_of_fits hsegments hfits hi

theorem getElem?_segmentColors (hi : i < segments)
    (hfits : (segments - 1) * (g.count - 1) < 2 ^ (wordBits - 1)) :
    (g.segmentColors segments)[i]? = some (g.color (quotient g.count segments i)) := by
  obtain rfl | htwo : i = 0 ∨ 2 ≤ segments := by omega
  . have hzero : g.indexOf segments 0 = 0 := by simp [indexOf, indexIn]
    simp [segmentColors, hi, hzero, quotient]
  have hlt := quotient_lt g.two_le_count hi
  have hindex : g.indexOf segments i = quotient g.count segments i := by
    unfold indexOf
    rw [indexIn_of_fits htwo hfits hi]
    rw [← Int.natCast_emod, Int.toNat_natCast, Nat.mod_eq_of_lt hlt]
  simp [segmentColors, hi, hindex]

/--
The index `i * (count - 1) / (segments - 1)`, computed in words of some bits, spreads the colors over the
segments: within bounds, from the first to the last color, none skipped or none repeated, in steps that
differ by one at most. It does so exactly as long as the largest product fits in a word. These are the
indices by which the segments are colored, and where the product fits there is a gradient of that many colors.
-/
theorem segmentColors_spread (first last : Color) {segments count : Nat} (bits : Nat)
    (hsegments : 2 ≤ segments) (hcount : 2 ≤ count) :
    (Spread segments count (indexIn bits count segments) ↔
        (segments - 1) * (count - 1) < 2 ^ (bits - 1)) ∧
      ((segments - 1) * (count - 1) < 2 ^ (bits - 1) →
        ∀ i < segments, indexIn bits count segments i = (i * (count - 1) / (segments - 1) : Nat)) ∧
      ((segments - 1) * (count - 1) < 2 ^ (wordBits - 1) →
        ∃ g, read first.toValue last.toValue (.int count) = .ok g ∧
          (g.segmentColors segments).size = segments ∧
          (∀ i < segments,
            (g.segmentColors segments)[i]? = g.colors[i * (count - 1) / (segments - 1)]?) ∧
          (g.segmentColors segments)[0]? = some first ∧
          (g.segmentColors segments)[segments - 1]? = some last) := by
  refine ⟨spread_indexIn_iff hsegments hcount, fun hfits i hi => indexIn_of_fits hsegments hfits hi,
    fun hfits => ?_⟩
  have hmost : count ≤ maxCount := by
    have hle : count - 1 ≤ (segments - 1) * (count - 1) := Nat.le_mul_of_pos_left _ (by omega)
    have hword : 2 ^ (wordBits - 1) = maxCount := rfl
    omega
  have hread := read_eq_between first last hcount hmost
  refine ⟨_, hread, size_segmentColors _ _, fun i hi => ?_, ?_, ?_⟩
  . rw [getElem?_segmentColors hi hfits]
    exact (getElem?_colors (quotient_lt hcount hi)).symm
  . rw [getElem?_segmentColors (by omega) hfits]
    simp only [quotient, Nat.zero_mul, Nat.zero_div]
    rw [color_zero hmost]
  . rw [getElem?_segmentColors (by omega) hfits]
    rw [quotient_last hsegments]
    exact congrArg some color_last

theorem segmentColors_spread_more_segments :
    Spread 10 4 (indexIn 32 4 10) ∧ (∀ i < 10, indexIn 32 4 10 i = (i * 3 / 9 : Nat)) ∧
      ∃ g, read Palette.black.toValue Palette.white.toValue (.int 4) = .ok g ∧
        (g.segmentColors 10)[0]? = some Palette.black ∧ (g.segmentColors 10)[9]? = some Palette.white := by
  obtain ⟨hspread, hindex, hread⟩ :=
    segmentColors_spread Palette.black Palette.white 32 (show 2 ≤ 10 by decide) (show 2 ≤ 4 by decide)
  obtain ⟨g, hg, -, -, hfirst, hlast⟩ := hread (by decide)
  exact ⟨hspread.2 (by decide), hindex (by decide), g, hg, hfirst, hlast⟩

/--
With three billion segments and as many colors the last product turns over, and the last segment has one of
the first colors. A gradient of more colors than a word can count is refused.
-/
theorem last_index_turns_over :
    (¬ Spread 3037000501 3037000501 (indexIn wordBits 3037000501 3037000501) ∧
        indexIn wordBits 3037000501 3037000501 3037000500 = -3037000500) ∧
      read Palette.black.toValue Palette.white.toValue (.int (2 ^ 64)) = .error .badValue := by
  refine ⟨⟨fun h => ?_, by decide⟩, rfl⟩
  exact absurd h.last (by decide)

end Gradient
end TurtleCurves
