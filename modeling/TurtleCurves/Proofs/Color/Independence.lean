import TurtleCurves.Proofs.Binary.Error
import TurtleCurves.Proofs.Color.Interpolation

/-!
This module contains what a channel of a gradient owes to the other channels. They decide in which of two
ways it is computed, by whether one of them is level, and nothing else.
-/

namespace TurtleCurves

open Binary

theorem Channels.any_toList {α : Type} {c : Channels α} {p : α → Bool} :
    c.toList.any p = true ↔ ∃ k, p (c.get k) = true := by
  simp only [toList, List.any_cons, List.any_nil, Bool.or_false, Bool.or_eq_true]
  constructor
  . rintro (h | h | h | h)
    . exact ⟨.red, h⟩
    . exact ⟨.green, h⟩
    . exact ⟨.blue, h⟩
    . exact ⟨.alpha, h⟩
  . rintro ⟨k, h⟩
    cases k with
    | red => exact .inl h
    | green => exact .inr (.inl h)
    | blue => exact .inr (.inr (.inl h))
    | alpha => exact .inr (.inr (.inr h))

namespace Gradient

variable {first last first' last' : Color} {n : Nat} {hleast : 2 ≤ n} {i : Nat} {k : Channel}

def Meet (first last : Color) : Prop :=
  ∃ k : Channel, first.get k = last.get k

def channel (g : Gradient) (k : Channel) : List UInt8 :=
  g.colors.map (·.get k)

theorem steps_lt (hleast : 2 ≤ n) (hmost : n ≤ maxCount) : n - 1 < 2 ^ 63 := by
  have : maxCount = 2 ^ 63 := rfl
  omega

theorem step_beq_zero_iff (hmost : n ≤ maxCount) :
    ((between first last n hleast).step.get k == 0) = true ↔ first.get k = last.get k := by
  -- A step is nothing only where nothing is to be gone.
  obtain ⟨w, hsteps, hone, hlt⟩ := exists_denotes_steps (by omega) (steps_lt hleast hmost)
  obtain ⟨v, hround⟩ := exists_roundsTo_div (abs_rise_lt (first.get k) (last.get k)) hone hlt
  have hpos : w ≠ 0 := by linarith
  have hstep := (denotes_rise (first.get k) (last.get k)).div hsteps hpos hround
  have hget : (between first last n hleast).step.get k =
      (Float.ofNat (last.get k).toNat - Float.ofNat (first.get k).toNat) / Float.ofNat (n - 1) := by
    simp only [step, rise, steps, between, Channels.get_map, Channels.get_zipWith]
  rw [hget, hstep.beq_iff denotes_zero, hround.eq_zero_iff, div_eq_zero_iff, or_iff_left hpos, Int.cast_eq_zero]
  rw [sub_eq_zero, Nat.cast_inj, UInt8.toNat_inj, eq_comm]

theorem isFlat_iff (hmost : n ≤ maxCount) :
    (between first last n hleast).isFlat = true ↔ Meet first last := by
  unfold isFlat Meet
  rw [Channels.any_toList]
  simp only [step_beq_zero_iff hmost]

theorem get_color_eq (hfirst : first.get k = first'.get k) (hlast : last.get k = last'.get k)
    (hflat : (between first last n hleast).isFlat = (between first' last' n hleast).isFlat) (hi : i < n) :
    ((between first last n hleast).color i).get k = ((between first' last' n hleast).color i).get k := by
  -- Besides the ends only the way in which all channels are computed counts.
  by_cases hbefore : i < n - 1
  . rw [color, color, Channels.get_map, Channels.get_map]
    rw [get_position hbefore, get_position hbefore, hfirst, hlast, hflat]
  . obtain rfl : i = n - 1 := by omega
    rw [color_last, color_last, hlast]

theorem channel_between_eq (hmost : n ≤ maxCount) (hfirst : first.get k = first'.get k)
    (hlast : last.get k = last'.get k) (hmeet : Meet first last ↔ Meet first' last') :
    (between first last n hleast).channel k = (between first' last' n hleast).channel k := by
  have hflat : (between first last n hleast).isFlat = (between first' last' n hleast).isFlat := by
    rw [Bool.eq_iff_iff, isFlat_iff hmost, isFlat_iff hmost, hmeet]
  unfold channel colors
  rw [List.map_map, List.map_map]
  refine List.map_congr_left fun i hi => ?_
  exact get_color_eq hfirst hlast hflat (List.mem_range.1 hi)

theorem map_channel_read_eq (hfirst : first.get k = first'.get k) (hlast : last.get k = last'.get k)
    (hmeet : Meet first last ↔ Meet first' last') (count : Value) :
    (read first.toValue last.toValue count).map (·.channel k) =
      (read first'.toValue last'.toValue count).map (·.channel k) := by
  rw [read_toValue, read_toValue]
  cases count.toNumber with
  | error fault => rfl
  | ok number =>
    simp only [bind, Except.bind]
    split
    . rfl
    . cases hcount : readCount count with
      | error fault => rfl
      | ok n =>
        have hmost := le_maxCount_of_readCount hcount
        exact congrArg Except.ok (channel_between_eq hmost hfirst hlast hmeet)

/-- Where a channel of a color lies in exact arithmetic. -/
def place (first last : Color) (n i : Nat) (k : Channel) : Rat :=
  (first.get k).toNat + i / (n - 1 : Nat) * ((last.get k).toNat - (first.get k).toNat : Int)

theorem abs_rise_lt_two_pow (a b : UInt8) : |(b.toNat : Int) - a.toNat| < 2 ^ 8 := by
  have := a.toNat_lt
  have := b.toNat_lt
  rw [abs_lt]
  omega

theorem exists_denotes_offset (flat : Bool) (a b : UInt8) (hi : i < n - 1) (hmost : n ≤ 2 ^ 53) :
    ∃ offset,
      Denotes
        (if flat then Float.ofNat i / Float.ofNat (n - 1) * (Float.ofNat b.toNat - Float.ofNat a.toNat)
          else Float.ofNat i * ((Float.ofNat b.toNat - Float.ofNat a.toNat) / Float.ofNat (n - 1))) offset ∧
        |offset - i / (n - 1 : Nat) * (b.toNat - a.toNat : Int)| ≤ 1 / 2 ^ 33 := by
  have hlt : n - 1 < 2 ^ 53 := by omega
  have hsteps := denotes_ofNat (roundsTo_natCast hlt)
  have hrise := abs_rise_lt_two_pow a b
  cases flat with
  | true => exact exists_denotes_share hi.le (by omega) hlt hrise hsteps (denotes_rise a b)
  | false => exact exists_denotes_multiple hi.le (by omega) hlt hrise hsteps (denotes_rise a b)

theorem place_last (hleast : 2 ≤ n) : place first last n (n - 1) k = ((last.get k).toNat : Int) := by
  have hpos : ((n - 1 : Nat) : Rat) ≠ 0 := by
    rw [Nat.cast_ne_zero]
    omega
  rw [place, div_self hpos]
  push_cast
  ring

theorem abs_offset_add_le {offset : Rat} (a b : UInt8) (hi : i < n - 1)
    (h : |offset - i / (n - 1 : Nat) * (b.toNat - a.toNat : Int)| ≤ 1 / 2 ^ 33) :
    |offset + (a.toNat : Int)| ≤ (1000 : Nat) := by
  have hrise := abs_rise_le (abs_rise_lt_two_pow a b)
  have hpos : 1 ≤ n - 1 := by omega
  have hratio := abs_ratio_le_one (i := (i : Rat)) (w := (n - 1 : Nat)) (by positivity)
    (by exact_mod_cast hi.le) (by exact_mod_cast hpos)
  have hexact : |(i / (n - 1 : Nat) * (b.toNat - a.toNat : Int) : Rat)| ≤ 2 ^ 8 := by
    calc
      |(i / (n - 1 : Nat) * (b.toNat - a.toNat : Int) : Rat)|
          = |(i : Rat) / (n - 1 : Nat)| * |((b.toNat - a.toNat : Int) : Rat)| := abs_mul _ _
      _ ≤ (1 : Nat) * 2 ^ 8 := by gcongr
      _ = 2 ^ 8 := by norm_num
  have hfirst : (a.toNat : Rat) < 2 ^ 8 := by exact_mod_cast a.toNat_lt
  have hnonneg : (0 : Rat) ≤ a.toNat := a.toNat.cast_nonneg
  rw [Int.cast_natCast]
  push_cast at hexact h ⊢
  rw [abs_le] at *
  constructor <;> linarith

theorem exists_denotes_near (hmost : n ≤ 2 ^ 53) (hi : i < n) :
    ∃ v, Denotes (((between first last n hleast).position i).get k) v ∧
      |v - place first last n i k| ≤ 1 / 2 ^ 32 := by
  by_cases hbefore : i < n - 1
  . obtain ⟨offset, hoffset, herror⟩ := exists_denotes_offset (between first last n hleast).isFlat
      (first.get k) (last.get k) hbefore hmost
    rw [get_position hbefore]
    have hfirst := denotes_byte (first.get k)
    have hplace : offset + ((first.get k).toNat : Int) - place first last n i k =
        offset - i / (n - 1 : Nat) * ((last.get k).toNat - (first.get k).toNat : Int) := by
      rw [place]
      push_cast
      ring
    have hsum := abs_offset_add_le (first.get k) (last.get k) hbefore herror
    obtain ⟨v, hv⟩ := (hoffset.roundsTo.onGrid.add (onGrid_intCast _)).exists_roundsTo
      (lt_of_abs_le_natCast (by norm_num) hsum)
    refine ⟨v, hoffset.add hfirst hv, ?_⟩
    calc
      |v - place first last n i k|
          ≤ |v - (offset + ((first.get k).toNat : Int))| +
              |offset + ((first.get k).toNat : Int) - place first last n i k| := abs_sub_le _ _ _
      _ ≤ 1 / 2 ^ 42 + 1 / 2 ^ 33 := by
        rw [hplace]
        gcongr
        exact hv.abs_sub_le_of_abs_le (by norm_num) hsum
      _ ≤ 1 / 2 ^ 32 := by norm_num
  . obtain rfl : i = n - 1 := by omega
    refine ⟨((last.get k).toNat : Int), ?_, ?_⟩
    . rw [show (between first last n hleast).position (n - 1) = _ from position_last _]
      exact (last.get_map _ k).symm ▸ denotes_byte (last.get k)
    . rw [place_last hleast, sub_self, abs_zero]
      norm_num

theorem abs_floor_sub_floor_le {v w : Rat} (h : |v - w| < 1) : |⌊v⌋ - ⌊w⌋| ≤ 1 := by
  obtain ⟨hlow, hhigh⟩ := abs_lt.1 h
  have hv := Int.floor_le v
  have hv' := Int.lt_floor_add_one v
  have hw := Int.floor_le w
  have hw' := Int.lt_floor_add_one w
  have hupper : ⌊v⌋ < ⌊w⌋ + 2 := by
    have : (⌊v⌋ : Rat) < ⌊w⌋ + 2 := by linarith
    exact_mod_cast this
  have hlower : ⌊w⌋ < ⌊v⌋ + 2 := by
    have : (⌊w⌋ : Rat) < ⌊v⌋ + 2 := by linarith
    exact_mod_cast this
  rw [abs_le]
  omega

theorem abs_get_color_sub_le (hmost : n ≤ 2 ^ 53) (hi : i < n) (hfirst : first.get k = first'.get k)
    (hlast : last.get k = last'.get k) :
    |((((between first last n hleast).color i).get k).toNat : Int) -
      (((between first' last' n hleast).color i).get k).toNat| ≤ 1 := by
  obtain ⟨course, -, hcourse⟩ := exists_course_color first last hleast hmost k
  obtain ⟨course', -, hcourse'⟩ := exists_course_color first' last' hleast hmost k
  obtain ⟨hv, hbyte⟩ := hcourse i hi
  obtain ⟨hw, hbyte'⟩ := hcourse' i hi
  obtain ⟨v, hv', herror⟩ := @exists_denotes_near first last n hleast i k hmost hi
  obtain ⟨w, hw', herror'⟩ := @exists_denotes_near first' last' n hleast i k hmost hi
  have hplace : place first' last' n i k = place first last n i k := by
    rw [place, place, hfirst, hlast]
  rw [hbyte, hbyte', hv.unique hv', hw.unique hw']
  rw [hplace] at herror'
  apply abs_floor_sub_floor_le
  rw [abs_le] at *
  rw [abs_lt]
  constructor <;> linarith

/--
A channel of a gradient does not depend on the other channels, except for whether some channel is the same in
both ends: this alone decides how all of them are computed. Even that moves no byte by more than one.
-/
theorem read_channel_of_ends (first last first' last' : Color) (k : Channel)
    (hfirst : first.get k = first'.get k) (hlast : last.get k = last'.get k) (count : Value) :
    ((Meet first last ↔ Meet first' last') →
      (read first.toValue last.toValue count).map (·.channel k) =
        (read first'.toValue last'.toValue count).map (·.channel k)) ∧
    ∀ n : Nat, count = .int n → 2 ≤ n → n ≤ 2 ^ 53 →
      ∃ g g', read first.toValue last.toValue count = .ok g ∧ read first'.toValue last'.toValue count = .ok g' ∧
        List.Forall₂ (fun b b' => |(b.toNat : Int) - b'.toNat| ≤ 1) (g.channel k) (g'.channel k) := by
  refine ⟨fun hmeet => map_channel_read_eq hfirst hlast hmeet count, ?_⟩
  rintro n rfl hleast hmost
  have hmostCount : n ≤ maxCount := hmost.trans (by decide)
  refine ⟨_, _, read_eq_between first last hleast hmostCount,
    read_eq_between first' last' hleast hmostCount, ?_⟩
  unfold channel colors
  rw [List.map_map, List.map_map, List.forall₂_map_left_iff, List.forall₂_map_right_iff]
  refine List.forall₂_same.2 fun i hi => ?_
  exact abs_get_color_sub_le hmost (List.mem_range.1 hi) hfirst hlast

theorem read_channel_of_ends_level :
    (read (Color.toValue ⟨0, 0, 0, 255⟩) (Color.toValue ⟨22, 22, 22, 255⟩) (.int 23)).map (·.channel .red) =
      (read (Color.toValue ⟨0, 7, 9, 1⟩) (Color.toValue ⟨22, 7, 4, 0⟩) (.int 23)).map (·.channel .red) :=
  (read_channel_of_ends ⟨0, 0, 0, 255⟩ ⟨22, 22, 22, 255⟩ ⟨0, 7, 9, 1⟩ ⟨22, 7, 4, 0⟩ .red rfl rfl (.int 23)).1
    (iff_of_true ⟨.alpha, rfl⟩ ⟨.green, rfl⟩)

/-- A gray is one darker in the middle of a gradient if the opacity is the same throughout. -/
theorem level_alpha_lowers_red :
    (read (Color.toValue ⟨0, 0, 0, 0⟩) (Color.toValue ⟨22, 22, 22, 22⟩) (.int 23)).toOption.map
        (fun g => (g.channel .red)[15]?) = some (some 15) ∧
      (read (Color.toValue ⟨0, 0, 0, 255⟩) (Color.toValue ⟨22, 22, 22, 255⟩) (.int 23)).toOption.map
        (fun g => (g.channel .red)[15]?) = some (some 14) := by
  constructor
  . decide +kernel
  . decide +kernel

end Gradient
end TurtleCurves
