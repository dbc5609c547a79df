import TurtleCurves.Proofs.Binary.Course
import TurtleCurves.Proofs.Color.Gradient

/-!
This module contains the course of the colors between the ends of a gradient. Each channel goes from one end
to the other and never turns back, however the doubles in between are rounded.
-/

namespace TurtleCurves

open Binary

inductive Channel
  | red
  | green
  | blue
  | alpha

namespace Channels

variable {α β γ : Type}

def get (c : Channels α) : Channel → α
  | .red => c.red
  | .green => c.green
  | .blue => c.blue
  | .alpha => c.alpha

@[simp]
theorem get_map (f : α → β) (c : Channels α) (k : Channel) : (c.map f).get k = f (c.get k) := by
  cases k <;> rfl

@[simp]
theorem get_zipWith (f : α → β → γ) (a : Channels α) (b : Channels β) (k : Channel) :
    (a.zipWith f b).get k = f (a.get k) (b.get k) := by
  cases k <;> rfl

theorem ext_get {a b : Channels α} (h : ∀ k, a.get k = b.get k) : a = b := by
  cases a
  cases b
  simp only [mk.injEq]
  exact ⟨h .red, h .green, h .blue, h .alpha⟩

end Channels

namespace Gradient

variable {first last : Color} {n : Nat} {hleast : 2 ≤ n} {i j : Nat} {k : Channel}

theorem denotes_byte (b : UInt8) : Denotes (Float.ofNat b.toNat) (b.toNat : Int) := by
  have hround := roundsTo_natCast (b.toNat_lt.trans (show 2 ^ 8 < 2 ^ 53 by norm_num))
  exact_mod_cast denotes_ofNat hround

theorem abs_byte_lt (b : UInt8) : |(b.toNat : Int)| < 2 ^ 53 := by
  have := b.toNat_lt
  rw [Nat.abs_cast]
  omega

theorem abs_rise_lt (a b : UInt8) : |(b.toNat : Int) - a.toNat| < 2 ^ 53 := by
  have := a.toNat_lt
  have := b.toNat_lt
  rw [abs_lt]
  omega

theorem denotes_rise (a b : UInt8) :
    Denotes (Float.ofNat b.toNat - Float.ofNat a.toNat) ((b.toNat - a.toNat : Int) : Rat) := by
  have hround := roundsTo_intCast (abs_rise_lt a b)
  exact (denotes_byte b).sub (denotes_byte a) (by rwa [← Int.cast_sub])

theorem toNat_toByte {x : Float} {v : Rat} (h : Denotes x v) (hnonneg : 0 ≤ v) (hlt : v < 256) :
    ((toByte x).toNat : Int) = ⌊v⌋ := by
  obtain ⟨b, hview, rfl⟩ := h
  have hleast : 0 ≤ ⌊b.value⌋ := Int.floor_nonneg.2 hnonneg
  have hmost : ⌊b.value⌋ < 256 := Int.floor_lt.2 (by exact_mod_cast hlt)
  unfold toByte
  rw [hview]
  simp only
  rw [floor_eq, UInt8.toNat_ofNat']
  omega

theorem toByte_eq {x : Float} {b : UInt8} (h : Denotes x (b.toNat : Int)) : toByte x = b := by
  have hlt : (b.toNat : Rat) < 256 := by exact_mod_cast b.toNat_lt
  have hbyte := toNat_toByte h (by positivity) (by exact_mod_cast hlt)
  rw [Int.floor_intCast] at hbyte
  exact UInt8.toNat_inj.1 (by exact_mod_cast hbyte)

theorem get_position (hi : i < n - 1) :
    ((between first last n hleast).position i).get k
      =
    (if (between first last n hleast).isFlat then
        Float.ofNat i / Float.ofNat (n - 1) *
          (Float.ofNat (last.get k).toNat - Float.ofNat (first.get k).toNat)
      else
        Float.ofNat i *
          ((Float.ofNat (last.get k).toNat - Float.ofNat (first.get k).toNat) / Float.ofNat (n - 1)))
      + Float.ofNat (first.get k).toNat := by
  have hcount : (between first last n hleast).count = n := rfl
  have hsteps : (between first last n hleast).steps = Float.ofNat (n - 1) := rfl
  have hfirst : (between first last n hleast).first.get k = Float.ofNat (first.get k).toNat :=
    first.get_map _ k
  have hlast : (between first last n hleast).last.get k = Float.ofNat (last.get k).toNat :=
    last.get_map _ k
  have hbetween : i + 1 ≠ n := by omega
  unfold position
  simp only [hcount, if_neg hbetween]
  split <;> simp only [step, rise, Channels.get_zipWith, Channels.get_map, hfirst, hlast, hsteps]

theorem exists_denotes_steps (hpos : 1 ≤ i) (hlt : i < 2 ^ 63) :
    ∃ w, Denotes (Float.ofNat i) w ∧ 1 ≤ w ∧ w < 2 ^ 64 := by
  -- The number of steps is rounded to a double, which is one at least.
  have hone : (1 : Rat) ≤ i := by exact_mod_cast hpos
  have hmost : (i : Rat) < 2 ^ 63 := by exact_mod_cast hlt
  have hsize : (2 : Rat) ^ (-1021 : Int) ≤ i := by
    simpa using size_le_div hone one_pos (by norm_num)
  obtain ⟨w, hw⟩ : ∃ w, RoundsTo i w := by
    apply exists_roundsTo <;> rw [Nat.abs_cast]
    . exact (zpow_le_zpow_right₀ (by norm_num) (by norm_num)).trans hsize
    . refine (hmost.trans ?_).trans two_pow_lt_overflowBound
      rw [← zpow_natCast]
      exact zpow_lt_zpow_right₀ (by norm_num) (by norm_num)
  have hle := hw.le_add hsize
  exact ⟨w, denotes_ofNat hw, roundsTo_one.mono hw hone, by linarith⟩

theorem color_zero (hmost : n ≤ maxCount) : (between first last n hleast).color 0 = first := by
  apply Channels.ext_get
  intro k
  have hlt : n - 1 < 2 ^ 63 := by
    have : maxCount = 2 ^ 63 := rfl
    omega
  obtain ⟨w, hsteps, hone, hlt⟩ := exists_denotes_steps (by omega) hlt
  have hzero : Denotes (Float.ofNat 0) 0 := denotes_ofNat (by simpa using RoundsTo.zero)
  have hrise := denotes_rise (first.get k) (last.get k)
  obtain ⟨step, hstep⟩ := exists_roundsTo_div (abs_rise_lt (first.get k) (last.get k)) hone hlt
  have hfirst := denotes_byte (first.get k)
  rw [color, Channels.get_map]
  apply toByte_eq
  rw [get_position (by omega)]
  -- Nothing is added to the first color, whether it is a share of the rise or a multiple of the step.
  have hadd {x : Float} (hx : Denotes x 0) :
      Denotes (x + Float.ofNat (first.get k).toNat) ((first.get k).toNat : Int) :=
    hx.add hfirst (by simpa using hfirst.roundsTo)
  split
  . have hshare := hzero.div hsteps (by linarith) (by simpa using RoundsTo.zero)
    exact hadd (hshare.mul hrise (by simpa using RoundsTo.zero))
  . have hstep := hrise.div hsteps (by linarith) hstep
    exact hadd (hzero.mul hstep (by simpa using RoundsTo.zero))

theorem color_last : (between first last n hleast).color (n - 1) = last := by
  apply Channels.ext_get
  intro k
  rw [color, show (between first last n hleast).position (n - 1) = _ from position_last _]
  simp only [between, Channels.get_map]
  exact toByte_eq (denotes_byte _)

theorem exists_course (first last : Color) (hleast : 2 ≤ n) (hmost : n ≤ 2 ^ 53) (k : Channel) :
    ∃ course,
      (∀ i < n, Denotes (((between first last n hleast).position i).get k) (course i)) ∧
        Towards n ((first.get k).toNat : Int) ((last.get k).toNat : Int) course := by
  obtain ⟨m, rfl⟩ : ∃ m, n = m + 1 := ⟨n - 1, by omega⟩
  have hpos : 0 < m := by omega
  have hlt : m < 2 ^ 53 := by omega
  obtain ⟨offset, hoffset, htowards⟩ := exists_offset (between first last (m + 1) hleast).isFlat
    (abs_rise_lt (first.get k) (last.get k)) hpos hlt (denotes_ofNat (roundsTo_natCast hlt))
    (denotes_rise _ _)
  obtain ⟨course, hcourse, htowards⟩ := exists_course_of_offset hpos (abs_byte_lt _) (abs_byte_lt _)
    htowards hoffset (denotes_byte (first.get k))
  refine ⟨_, fun i hi => ?_, htowards.reach hpos⟩
  by_cases hbefore : i < m
  . rw [if_pos hbefore, get_position hbefore]
    exact hcourse i hbefore
  . obtain rfl : i = m := by omega
    rw [if_neg hbefore]
    rw [show (between first last (i + 1) hleast).position i = _ from position_last _]
    exact (last.get_map _ k).symm ▸ denotes_byte (last.get k)

theorem exists_course_color (first last : Color) (hleast : 2 ≤ n) (hmost : n ≤ 2 ^ 53) (k : Channel) :
    ∃ course,
      Towards n ((first.get k).toNat : Int) ((last.get k).toNat : Int) course ∧
        ∀ i < n, Denotes (((between first last n hleast).position i).get k) (course i) ∧
          ((((between first last n hleast).color i).get k).toNat : Int) = ⌊course i⌋ := by
  obtain ⟨course, hcourse, htowards⟩ := exists_course first last hleast hmost k
  refine ⟨course, htowards, fun i hi => ⟨hcourse i hi, ?_⟩⟩
  obtain ⟨hbelow, habove⟩ := htowards.mem hi
  have hfirst : ((first.get k).toNat : Rat) < 256 := by exact_mod_cast (first.get k).toNat_lt
  have hlast : ((last.get k).toNat : Rat) < 256 := by exact_mod_cast (last.get k).toNat_lt
  rw [color, Channels.get_map]
  refine toNat_toByte (hcourse i hi) ?_ ?_
  . refine le_trans (le_min ?_ ?_) hbelow <;> positivity
  . exact habove.trans_lt (max_lt hfirst hlast)

theorem getElem?_colors {g : Gradient} (hi : i < g.count) : g.colors[i]? = some (g.color i) := by
  simp [colors, hi]

theorem pairwise_colors {g : Gradient} {R : UInt8 → UInt8 → Prop}
    (h : ∀ i j, i ≤ j → j < g.count → R ((g.color i).get k) ((g.color j).get k)) :
    (g.colors.map (·.get k)).Pairwise R := by
  unfold colors
  rw [List.map_map, List.pairwise_map]
  refine List.pairwise_lt_range.imp_of_mem fun {i j} _ hj hij => ?_
  exact h i j hij.le (List.mem_range.1 hj)

/--
Between two colors there is a gradient of every number of colors up to `2 ^ 52`. It has that many colors,
begins with the first and ends with the last. No channel ever turns back, and none leaves the range between
its ends, neither as a byte nor as the double whose fraction is lost.
-/
theorem read_interpolates (first last : Color) {n : Nat} (hleast : 2 ≤ n) (hmost : n ≤ 2 ^ 52) :
    ∃ g, read first.toValue last.toValue (.int n) = .ok g ∧
      g.colors.length = n ∧ g.colors[0]? = some first ∧ g.colors[n - 1]? = some last ∧
      ∀ k : Channel,
        (first.get k ≤ last.get k → (g.colors.map (·.get k)).Pairwise (· ≤ ·)) ∧
        (last.get k ≤ first.get k → (g.colors.map (·.get k)).Pairwise (· ≥ ·)) ∧
        ∀ i < n, ∃ (c : Color) (v : Rat), g.colors[i]? = some c ∧
          Denotes ((g.position i).get k) v ∧ ((c.get k).toNat : Int) = ⌊v⌋ ∧
          min (first.get k).toNat (last.get k).toNat ≤ v ∧
          v ≤ max (first.get k).toNat (last.get k).toNat ∧
          min (first.get k).toNat (last.get k).toNat ≤ (c.get k).toNat ∧
          (c.get k).toNat ≤ max (first.get k).toNat (last.get k).toNat := by
  have hcount : (between first last n hleast).count = n := rfl
  have hmostCount : n ≤ maxCount := hmost.trans (by decide)
  refine ⟨_, read_eq_between first last hleast hmostCount, length_colors _, ?_, ?_, fun k => ?_⟩
  . rw [getElem?_colors (by omega), color_zero hmostCount]
  . rw [getElem?_colors (by omega), color_last]
  obtain ⟨course, htowards, hcourse⟩ :=
    exists_course_color first last hleast (hmost.trans (by norm_num)) k
  have hfloor (i j : Nat) (hi : i < n) (hj : j < n) (hle : course i ≤ course j) :
      ((between first last n hleast).color i).get k ≤ ((between first last n hleast).color j).get k := by
    rw [UInt8.le_iff_toNat_le]
    have := Int.floor_le_floor hle
    have := (hcourse i hi).2
    have := (hcourse j hj).2
    omega
  refine ⟨fun hle => ?_, fun hle => ?_, fun i hi => ?_⟩
  . have hle : (((first.get k).toNat : Int) : Rat) ≤ ((last.get k).toNat : Int) := by
      exact_mod_cast UInt8.le_iff_toNat_le.1 hle
    refine pairwise_colors fun i j hij hj => ?_
    exact hfloor i j (hij.trans_lt hj) hj (htowards.rises hle i j hij hj).1
  . have hle : (((last.get k).toNat : Int) : Rat) ≤ ((first.get k).toNat : Int) := by
      exact_mod_cast UInt8.le_iff_toNat_le.1 hle
    refine pairwise_colors fun i j hij hj => ?_
    exact hfloor j i hj (hij.trans_lt hj) (htowards.falls hle i j hij hj).2
  . obtain ⟨hdenotes, hbyte⟩ := hcourse i hi
    obtain ⟨hleast, hmost⟩ := htowards.mem hi
    obtain ⟨hfloorLeast, hfloorMost⟩ := htowards.floor_mem hi
    refine ⟨_, course i, getElem?_colors hi, hdenotes, hbyte, ?_, ?_, by omega, by omega⟩
    . exact_mod_cast hleast
    . exact_mod_cast hmost

theorem read_interpolates_fading :
    ∃ g, read Palette.white.toValue Palette.gray.toValue (.int 5) = .ok g ∧
      g.colors.length = 5 ∧ g.colors[0]? = some Palette.white ∧ g.colors[4]? = some Palette.gray ∧
      (g.colors.map (·.get .red)).Pairwise (· ≥ ·) := by
  obtain ⟨g, hg, hlength, hfirst, hlast, hcourse⟩ :=
    read_interpolates Palette.white Palette.gray (show 2 ≤ 5 by decide) (by decide)
  exact ⟨g, hg, hlength, hfirst, hlast, (hcourse .red).2.1 (by decide)⟩

end Gradient
end TurtleCurves
