import TurtleCurves.Proofs.Binary.Remainder
import TurtleCurves.Turtle.Move

/-!
This module contains the headings of turtles. Each is the angle that was asked for, without its whole turns and
rounded once, so it lies between nothing and a full turn. Rounding may reach the full turn itself, from an angle
that is at most half a unit below one.
-/

namespace TurtleCurves

open Binary

namespace Angle

variable {x y : Float} {v w h : Rat}

theorem denotes_modulo (hx : Denotes x v) (hy : Denotes y w) (hw : 0 < w) :
    ∃ r, RoundsTo (rest v w) r ∧ Denotes (modulo x y) r := by
  -- The remainder is exact, and is rounded once if it has to be moved over.
  have hdivisor := hy
  obtain ⟨a, ha, rfl⟩ := hx
  obtain ⟨b, hb, rfl⟩ := hy
  have hpositive := negative_of_value_pos hw
  have hround := ((bounded_of_view ha).remainder (bounded_of_view hb) hw).roundsTo
  obtain ⟨k, hk⟩ := exists_eq_add_remainder a hw
  obtain ⟨hlower, hupper⟩ := abs_lt.1 (abs_value_remainder_lt a hw)
  unfold modulo
  rw [ha, hb]
  simp only
  split
  . next hzero =>
    rw [value_of_mantissa_zero hzero] at hk
    rw [rest_eq hk le_rfl hw]
    exact ⟨0, .zero, denotes_toFloat (by simpa [Binary.value] using RoundsTo.zero)⟩
  . next hne =>
    split
    . next hsign =>
      have hnonneg : 0 ≤ (a.remainder b).value := by
        rw [value_of_positive (hsign.trans hpositive)]
        positivity
      rw [rest_eq hk hnonneg hupper]
      exact ⟨_, hround, denotes_toFloat hround⟩
    . next hsign =>
      rw [hpositive, Bool.not_eq_false] at hsign
      have hneg := value_neg_of_negative hsign hne
      rw [rest_eq_add hk hneg hlower]
      -- The sum lies between nothing and the divisor, so it does not overflow.
      apply (denotes_toFloat hround).exists_add hdivisor
      rw [abs_of_nonneg (by linarith)]
      refine lt_of_le_of_lt ?_ hdivisor.lt_overflowBound
      rw [abs_of_pos hw]
      linarith

def wholeTurn : Rat :=
  (7074237752028440 : Nat) * 2 ^ (-50 : Int)

theorem denotes_fullTurn : Denotes fullTurn wholeTurn :=
  ⟨⟨false, 7074237752028440, -50⟩, by rfl, by norm_num [Binary.value, wholeTurn]⟩

theorem canonical_wholeTurn : Canonical 7074237752028440 (-50) :=
  ⟨by norm_num, by norm_num, by norm_num, by norm_num, .inl (by norm_num)⟩

theorem wholeTurn_pos : 0 < wholeTurn :=
  canonical_wholeTurn.value_pos

theorem roundsTo_wholeTurn : RoundsTo wholeTurn wholeTurn :=
  denotes_fullTurn.roundsTo

/-- What an angle is reduced to: the part of it that is over whole turns, rounded. -/
structure ReducesTo (v h : Rat) : Prop where
  roundsTo : RoundsTo (rest v wholeTurn) h
  nonneg : 0 ≤ h
  le : h ≤ wholeTurn
  eq_iff : h = wholeTurn ↔ wholeTurn - 2 ^ (-51 : Int) ≤ rest v wholeTurn

theorem reducesTo_of_roundsTo (hround : RoundsTo (rest v wholeTurn) h) : ReducesTo v h := by
  have hlt : rest v wholeTurn < wholeTurn := rest_lt wholeTurn_pos
  refine ⟨hround, hround.nonneg (rest_nonneg wholeTurn_pos), hround.mono roundsTo_wholeTurn hlt.le, ?_⟩
  have hhalf : wholeTurn - 2 ^ (-51 : Int) = ((7074237752028440 : Nat) - 1 / 2) * 2 ^ (-50 : Int) := by
    norm_num [wholeTurn]
  rw [hhalf, ← roundsTo_iff_of_lt canonical_wholeTurn (by norm_num) (by norm_num) hlt]
  constructor
  . intro heq
    rw [heq] at hround
    exact hround
  . intro hround'
    exact hround.unique hround'

theorem denotes_reduce (hx : Denotes x v) : ∃ h, Denotes (reduce x) h ∧ ReducesTo v h := by
  obtain ⟨h, hround, hdenotes⟩ := denotes_modulo hx denotes_fullTurn wholeTurn_pos
  exact ⟨h, hdenotes, reducesTo_of_roundsTo hround⟩

theorem exists_denotes_ofDegrees (hx : Denotes x v) : ∃ w, Denotes (ofDegrees x) w := by
  have hunit : Denotes (halfTurn / 180) ((5030569068109113 : Nat) * 2 ^ (-58 : Int)) :=
    ⟨⟨false, 5030569068109113, -58⟩, by rfl, by norm_num [Binary.value]⟩
  -- A degree is less than one in radians, so no finite number of degrees gets too large.
  refine hx.exists_mul hunit (lt_of_le_of_lt ?_ hx.lt_overflowBound)
  rw [abs_mul]
  apply mul_le_of_le_one_right (abs_nonneg v)
  rw [abs_of_nonneg (by positivity)]
  norm_num

end Angle

namespace Move

def hasFiniteAngle : Move → Bool
  | face angle | turn angle | turnDegrees angle => angle.isFinite
  | jump _ | forward _ => true

def target? (t : Turtle) : Move → Option Float
  | face angle => some angle
  | turn angle => some (t.heading + angle)
  | turnDegrees degrees => some (t.heading + Angle.ofDegrees degrees)
  | jump _ | forward _ => none

end Move

namespace Turtle

variable {t : Turtle} {move : Move} {moves : List Move} {angle : Float}

theorem heading_apply (move : Move) (t : Turtle) :
    (move.apply t).heading = ((move.target? t).map Angle.reduce).getD t.heading := by
  cases move <;> rfl

def HeadsWithinTurn (t : Turtle) : Prop :=
  ∃ h, Denotes t.heading h ∧ 0 ≤ h ∧ h ≤ Angle.wholeTurn

theorem HeadsWithinTurn.exists_denotes_add (ht : t.HeadsWithinTurn) {v : Rat} (hangle : Denotes angle v) :
    ∃ w, Denotes (t.heading + angle) w := by
  obtain ⟨h, hheading, hnonneg, hle⟩ := ht
  -- A heading is far less than half a unit of the greatest double.
  have hturn : Angle.wholeTurn < 2 ^ 64 := by norm_num [Angle.wholeTurn]
  have hlt : |v + h| < overflowBound := by
    apply hangle.add_lt_overflowBound
    rw [abs_of_nonneg hnonneg]
    exact hle.trans_lt hturn
  rw [add_comm] at hlt
  obtain ⟨w, -, hw⟩ := hheading.exists_add hangle hlt
  exact ⟨w, hw⟩

theorem HeadsWithinTurn.exists_denotes_target (ht : t.HeadsWithinTurn) (hfinite : move.hasFiniteAngle = true)
    (htarget : move.target? t = some angle) : ∃ v, Denotes angle v := by
  cases move with
  | jump p => cases htarget
  | forward distance => cases htarget
  | face angle =>
    cases htarget
    exact isFinite_iff.1 hfinite
  | turn angle =>
    cases htarget
    obtain ⟨v, hangle⟩ := isFinite_iff.1 hfinite
    exact ht.exists_denotes_add hangle
  | turnDegrees degrees =>
    cases htarget
    obtain ⟨v, hdegrees⟩ := isFinite_iff.1 hfinite
    obtain ⟨w, hangle⟩ := Angle.exists_denotes_ofDegrees hdegrees
    exact ht.exists_denotes_add hangle

theorem HeadsWithinTurn.exists_reducesTo (ht : t.HeadsWithinTurn) (hfinite : move.hasFiniteAngle = true)
    (htarget : move.target? t = some angle) :
    ∃ v h, Denotes angle v ∧ Denotes (move.apply t).heading h ∧ Angle.ReducesTo v h := by
  obtain ⟨v, hangle⟩ := ht.exists_denotes_target hfinite htarget
  obtain ⟨h, hheading, hreduces⟩ := Angle.denotes_reduce hangle
  refine ⟨v, h, hangle, ?_, hreduces⟩
  rw [heading_apply, htarget]
  exact hheading

theorem HeadsWithinTurn.apply (ht : t.HeadsWithinTurn) (hfinite : move.hasFiniteAngle = true) :
    (move.apply t).HeadsWithinTurn := by
  cases htarget : move.target? t with
  | none =>
    unfold HeadsWithinTurn
    rw [heading_apply, htarget]
    exact ht
  | some angle =>
    obtain ⟨v, h, -, hheading, hreduces⟩ := ht.exists_reducesTo hfinite htarget
    exact ⟨h, hheading, hreduces.nonneg, hreduces.le⟩

theorem HeadsWithinTurn.run (ht : t.HeadsWithinTurn) (hfinite : ∀ move ∈ moves, move.hasFiniteAngle = true) :
    (t.run moves).HeadsWithinTurn := by
  induction moves generalizing t with
  | nil => exact ht
  | cons move moves ih =>
    rw [List.forall_mem_cons] at hfinite
    exact ih (ht.apply hfinite.1) hfinite.2

theorem headsWithinTurn_onPath (path : Path Float) : (onPath path).HeadsWithinTurn :=
  ⟨0, denotes_zero, le_rfl, Angle.wholeTurn_pos.le⟩

/--
Whatever a turtle has done with finite angles, its heading is not negative and at most a full turn. A further
move that faces or turns it reduces a finite angle, and the heading is a full turn exactly if what that angle has
over whole turns is at most half a unit below one.
-/
theorem heading_run (path : Path Float) (hfinite : ∀ move ∈ moves, move.hasFiniteAngle = true) :
    Denotes Angle.fullTurn Angle.wholeTurn ∧ ((onPath path).run moves).HeadsWithinTurn ∧
    ∀ (move : Move) (angle : Float), move.hasFiniteAngle = true →
      move.target? ((onPath path).run moves) = some angle →
      ∃ v h, Denotes angle v ∧ Denotes (move.apply ((onPath path).run moves)).heading h ∧
        Angle.ReducesTo v h := by
  have hrun := (headsWithinTurn_onPath path).run hfinite
  refine ⟨Angle.denotes_fullTurn, hrun, ?_⟩
  intro move angle hmove htarget
  exact hrun.exists_reducesTo hmove htarget

theorem heading_run_right :
    (∀ move ∈ [Move.turnDegrees (-450), .forward 2, .turn 1e300], move.hasFiniteAngle = true) ∧
      ((onPath Path.empty).run [.turnDegrees (-450), .forward 2, .turn 1e300]).HeadsWithinTurn ∧
      ∃ v h, Denotes (-1e-20) v ∧
        Denotes (((onPath Path.empty).run [.turnDegrees (-450), .forward 2, .turn 1e300]).face (-1e-20)).heading
          h ∧
        Angle.ReducesTo v h := by
  have hfinite : ∀ move ∈ [Move.turnDegrees (-450), .forward 2, .turn 1e300], move.hasFiniteAngle = true := by
    decide +kernel
  obtain ⟨-, hrun, hnext⟩ := heading_run Path.empty hfinite
  obtain ⟨v, h, hangle, hheading, hreduces⟩ := hnext (.face (-1e-20)) (-1e-20) (by decide +kernel) rfl
  exact ⟨hfinite, hrun, v, h, hangle, hheading, hreduces⟩

/-- Turned to the right by next to nothing, a turtle heads a full turn. To turn by nothing then changes that. -/
theorem heading_full_turn :
    (-1e-20 : Float).isFinite = true ∧ (fresh.face (-1e-20)).heading = Angle.fullTurn ∧
      ¬ (fresh.face (-1e-20)).heading < Angle.fullTurn ∧ ((fresh.face (-1e-20)).turn 0).heading = 0 := by
  decide +kernel

end Turtle
end TurtleCurves
