import TurtleCurves.Proofs.Binary.Order
import TurtleCurves.Proofs.Number.Amount

/-!
This module contains what becomes of results that are too large for a double. The differences and quotients of
finite doubles are always defined: they are rounded, or infinite with their own sign. All doubles that are
defined compare as their amounts do.
-/

namespace TurtleCurves
namespace Binary

open Float.Model (UnpackedFloat)
open Float.Model.UnpackedFloat

variable {x y : Float} {u : UnpackedFloat} {s : Sign} {m : Nat} {M e E : Int} {v w : Rat} {p q : EReal}

/-- A double to which a number is rounded, or an infinite one if the number is too large. -/
inductive Rounded (x : Float) (v : Rat) : Prop
  | finite {r : Rat} (hr : RoundsTo v r) (hx : Denotes x r)
  | infinite (hv : v ≠ 0) (hx : view x = .infinite (v < 0))

theorem rounded_pack (hfits : Fits m e) (hr : Rounds m e v) (s : Sign) :
    Rounded (.ofModel (.pack (.finite s m e hfits.pos))) (unit s * v) := by
  have hpos := hr.pos hfits.pos
  by_cases he : e ≤ 971
  . have hc := hfits.canonical he
    exact .finite (.finite s hc hr) (denotes_pack hc s)
  . have hview := view_of_unpack_infinity (x := .ofModel (.pack (.finite s m e hfits.pos)))
      (unpack_pack_of_large hfits.pos (by omega))
    cases s with
    | positive =>
      rw [unit_positive, one_mul]
      have hsign : decide (v < 0) = false := decide_eq_false (not_lt.2 hpos.le)
      exact .infinite hpos.ne' (hsign ▸ hview)
    | negative =>
      rw [unit_negative, neg_one_mul]
      have hsign : decide (-v < 0) = true := decide_eq_true (neg_lt_zero.2 hpos)
      exact .infinite (neg_ne_zero.2 hpos.ne') (hsign ▸ hview)

theorem rounded_round {n : Nat} (hn : 0 < n) (hE : -1074 ≤ E) (s : Sign) :
    Rounded (.ofModel (.pack (UnpackedFloat.round .binary64 s n E))) (unit s * (n * 2 ^ E)) := by
  -- A whole mantissa at no less than the least exponent is not rounded to zero.
  have hone : (1 : Rat) ≤ n := by exact_mod_cast hn
  have hpower : (2 : Rat) ^ (-1074 : Int) ≤ 2 ^ E := zpow_le_zpow_right₀ (by norm_num) hE
  obtain ⟨m, e, hfits, hr⟩ := exists_fits_rounds (hpower.trans (le_mul_of_one_le_left (by positivity) hone))
  rw [round_eq hn hfits hr]
  exact rounded_pack hfits hr s

theorem rounded_normalize (hE : -1074 ≤ E) (M : Int) (s : Sign) :
    Rounded (.ofModel (.pack (UnpackedFloat.normalize .binary64 M E s))) (M * 2 ^ E) := by
  unfold UnpackedFloat.normalize
  rcases lt_trichotomy M 0 with hneg | rfl | hpos
  . have hcast : ((-M).toNat : Rat) = -M := by exact_mod_cast Int.toNat_of_nonneg (by omega : 0 ≤ -M)
    have hrounded := rounded_round (show 0 < (-M).toNat by omega) hE .negative
    rw [hcast, unit_negative, neg_one_mul, neg_mul, neg_neg] at hrounded
    rw [Int.compare_eq_lt.2 hneg]
    exact hrounded
  . exact .finite (by simpa using RoundsTo.zero) (denotes_pack_zero s)
  . have hcast : (M.toNat : Rat) = M := by exact_mod_cast Int.toNat_of_nonneg hpos.le
    have hrounded := rounded_round (show 0 < M.toNat by omega) hE .positive
    rw [hcast, unit_positive, one_mul] at hrounded
    rw [Int.compare_eq_gt.2 hpos]
    exact hrounded

theorem Unpacked.rounded_sub {a b : UnpackedFloat} (ha : Unpacked a v) (hb : Unpacked b w) :
    Rounded (.ofModel (.pack (UnpackedFloat.sub .binary64 a b))) (v - w) := by
  cases ha with
  | zero s =>
    have hr : RoundsTo (0 - w) (0 - w) := by
      rw [zero_sub]
      exact hb.roundsTo.neg
    exact .finite hr ((Unpacked.zero s).denotes_sub hb hr)
  | @finite m e s hc =>
    cases hb with
    | zero t =>
      have hr : RoundsTo (unit s * (m * 2 ^ e) - 0) (unit s * (m * 2 ^ e)) := by
        rw [sub_zero]
        exact (Unpacked.finite s hc).roundsTo
      exact .finite hr ((Unpacked.finite s hc).denotes_sub (.zero t) hr)
    | @finite m' e' t hc' =>
      have hrounded := rounded_normalize (le_min hc.least_le hc'.least_le)
        (s.apply (m <<< (e - min e e').toNat : Nat) - t.apply (m' <<< (e' - min e e').toNat : Nat)) .positive
      rw [Int.cast_sub, sub_mul] at hrounded
      rw [cast_shiftLeft (Int.min_le_left ..), cast_shiftLeft (Int.min_le_right ..)] at hrounded
      exact hrounded

theorem Unpacked.rounded_div {a b : UnpackedFloat} (ha : Unpacked a v) (hb : Unpacked b w) (hw : w ≠ 0)
    (hsize : v = 0 ∨ 2 ^ (-1074 : Int) ≤ |v / w|) :
    Rounded (.ofModel (.pack (UnpackedFloat.div .binary64 a b))) (v / w) := by
  cases hb with
  | zero t => exact absurd rfl hw
  | @finite m' e' t hc' =>
    cases ha with
    | zero s =>
      have hr : RoundsTo (0 / (unit t * (m' * 2 ^ e'))) 0 := by
        rw [zero_div]
        exact .zero
      exact .finite hr ((Unpacked.zero s).denotes_div (.finite t hc') hw hr)
    | @finite m e s hc =>
      have hpos : (0 : Rat) < m * 2 ^ e / (m' * 2 ^ e') := div_pos hc.value_pos hc'.value_pos
      have hvalue : unit s * (m * 2 ^ e) / (unit t * (m' * 2 ^ e')) =
          unit (s / t) * (m * 2 ^ e / (m' * 2 ^ e')) := by
        rw [unit_div, div_mul_div_comm]
      have hne : unit s * (m * 2 ^ e) ≠ 0 := by
        rw [← abs_pos, abs_mul, abs_unit, one_mul]
        exact abs_pos.2 hc.value_pos.ne'
      have hsize := hsize.resolve_left hne
      rw [hvalue, abs_mul, abs_unit, one_mul, abs_of_pos hpos] at hsize
      obtain ⟨_, _, hfits, hr⟩ := exists_fits_rounds hsize
      rw [hvalue, div_eq hc.pos hc'.pos hfits hr]
      exact rounded_pack hfits hr (s / t)

theorem Denotes.rounded_sub (hx : Denotes x v) (hy : Denotes y w) : Rounded (x - y) (v - w) :=
  hx.unpacked.rounded_sub hy.unpacked

theorem Denotes.rounded_div (hx : Denotes x v) (hy : Denotes y w) (hw : w ≠ 0)
    (hsize : v = 0 ∨ 2 ^ (-1074 : Int) ≤ |v / w|) : Rounded (x / y) (v / w) :=
  hx.unpacked.rounded_div hy.unpacked hw hsize

theorem rounded_ofNat (n : Nat) : Rounded (Float.ofNat n) n := by
  by_cases hsmall : n < 2 ^ 53
  . have hr := roundsTo_natCast hsmall
    exact .finite hr (denotes_ofNat hr)
  have hone : (1 : Rat) ≤ n := by exact_mod_cast (show 1 ≤ n by omega)
  have hsize : (2 : Rat) ^ (-1074 : Int) ≤ n := (zpow_le_one_of_nonpos₀ (by norm_num) (by norm_num)).trans hone
  obtain ⟨m, e, hfits, hr⟩ := exists_fits_rounds hsize
  have hpositive := rounded_pack hfits hr .positive
  rw [unit_positive, one_mul] at hpositive
  have hpos : 0 < n <<< (Nat.succ 52) := by
    rw [Nat.shiftLeft_eq]
    exact Nat.mul_pos (by omega) (by norm_num)
  have hmul := mul_powerOfTen_eq (k := 0) (Nat.le_succ 52) hpos one_pos hfits (by simpa using hr)
  have hofNat : Float.ofNat n = .ofModel (.pack (.finite .positive m e hfits.pos)) := by
    change Float.ofScientific n false 0 = _
    unfold Float.ofScientific
    rw [dif_neg (by omega)]
    change Float.ofModel (.pack (UnpackedFloat.ofScientific .binary64 n 0)) = _
    unfold UnpackedFloat.ofScientific
    rw [dif_neg (by omega), if_neg (by norm_num), if_neg (by norm_num), if_pos le_rfl]
    exact congrArg (fun u => Float.ofModel (.pack u)) hmul
  rw [hofNat]
  exact hpositive

theorem unpack_of_view_infinite {negative : Bool} (h : view x = .infinite negative) :
    ∃ s : Sign, x.toModel.unpack = .infinity s ∧ negative = (s == .negative) := by
  cases hx : x.toModel.unpack with
  | infinity s =>
    rw [view_of_unpack_infinity hx] at h
    exact ⟨s, rfl, (View.infinite.inj h).symm⟩
  | notANumber | zero s | finite s m e hm =>
    unfold view at h
    rw [hx] at h
    cases h

theorem compare_infinity_left (s : Sign) (h : Unpacked u v) :
    UnpackedFloat.compare (.infinity s) u = some (if s == .negative then .lt else .gt) := by
  cases h <;> cases s <;> rfl

theorem compare_infinity_right (s : Sign) (h : Unpacked u v) :
    UnpackedFloat.compare u (.infinity s) = some (if s == .negative then .gt else .lt) := by
  cases h with
  | zero => cases s <;> rfl
  | finite t => cases s <;> cases t <;> rfl

/-- A double that is defined and how much it is: boundless in one direction, or the value of a finite double. -/
inductive Amounts (x : Float) : EReal → Prop
  | negative (h : x.toModel.unpack = .infinity .negative) : Amounts x ⊥
  | positive (h : x.toModel.unpack = .infinity .positive) : Amounts x ⊤
  | finite {v : Rat} (h : Denotes x v) : Amounts x (v : Real)

theorem amounts_of_amount? (hx : (view x).amount? = some p) : Amounts x p := by
  cases hview : view x with
  | undefined =>
    rw [hview] at hx
    cases hx
  | infinite negative =>
    obtain ⟨s, hs, rfl⟩ := unpack_of_view_infinite hview
    rw [hview] at hx
    cases hx
    cases s with
    | negative => exact .negative hs
    | positive => exact .positive hs
  | finite b =>
    rw [hview] at hx
    cases hx
    exact .finite ⟨b, hview, rfl⟩

theorem Amounts.compare_eq (hx : Amounts x p) (hy : Amounts y q) :
    UnpackedFloat.compare x.toModel.unpack y.toModel.unpack = some (Ord.compare p q) := by
  cases hx with
  | negative hx =>
    rw [hx]
    cases hy with
    | negative hy =>
      rw [hy, compare_eq_iff_eq.2 rfl]
      rfl
    | positive hy =>
      rw [hy, compare_lt_iff_lt.2 bot_lt_top]
      rfl
    | finite hy =>
      rw [compare_infinity_left _ hy.unpacked, compare_lt_iff_lt.2 (EReal.bot_lt_coe _)]
      rfl
  | positive hx =>
    rw [hx]
    cases hy with
    | negative hy =>
      rw [hy, compare_gt_iff_gt.2 bot_lt_top]
      rfl
    | positive hy =>
      rw [hy, compare_eq_iff_eq.2 rfl]
      rfl
    | finite hy =>
      rw [compare_infinity_left _ hy.unpacked, compare_gt_iff_gt.2 (EReal.coe_lt_top _)]
      rfl
  | finite hx =>
    cases hy with
    | negative hy =>
      rw [hy, compare_infinity_right _ hx.unpacked, compare_gt_iff_gt.2 (EReal.bot_lt_coe _)]
      rfl
    | positive hy =>
      rw [hy, compare_infinity_right _ hx.unpacked, compare_lt_iff_lt.2 (EReal.coe_lt_top _)]
      rfl
    | finite hy =>
      rw [hx.unpacked.compare_eq hy.unpacked]
      rw [← cmp_eq_compare, ← cmp_eq_compare, Number.strictMono_coe.cmp_map_eq]

theorem compare_of_amount? (hx : (view x).amount? = some p) (hy : (view y).amount? = some q) :
    UnpackedFloat.compare x.toModel.unpack y.toModel.unpack = some (Ord.compare p q) :=
  (amounts_of_amount? hx).compare_eq (amounts_of_amount? hy)

theorem lt_iff_of_amount? (hx : (view x).amount? = some p) (hy : (view y).amount? = some q) :
    x < y ↔ p < q := by
  rw [lt_iff_compare, compare_of_amount? hx hy, Option.some.injEq, compare_lt_iff_lt]

theorem beq_iff_of_amount? (hx : (view x).amount? = some p) (hy : (view y).amount? = some q) :
    (x == y) = true ↔ p = q := by
  rw [beq_iff_compare, compare_of_amount? hx hy, Option.some.injEq, compare_eq_iff_eq]

theorem isFinite_iff : x.isFinite = true ↔ ∃ v, Denotes x v := by
  change x.toModel.unpack.isFinite = true ↔ _
  constructor
  . intro h
    cases hx : x.toModel.unpack with
    | notANumber | infinity s =>
      rw [hx] at h
      cases h
    | zero s => exact ⟨0, denotes_of_unpack_zero hx⟩
    | finite s m e hm => exact ⟨_, denotes_of_unpack_finite hx⟩
  . rintro ⟨v, h⟩
    cases hx : x.toModel.unpack with
    | notANumber | infinity s =>
      have hunpacked := h.unpacked
      rw [hx] at hunpacked
      cases hunpacked
    | zero s | finite s m e hm => rfl

theorem isFinite_of_isFinite_pack (h : (Float.Model.pack u).unpack.isFinite = true) : u.isFinite = true := by
  cases u with
  | notANumber => exact absurd h (by decide)
  | infinity s => cases s <;> exact absurd h (by decide)
  | zero s | finite s m e hm => rfl

theorem isFinite_of_isFinite_mul {a b : UnpackedFloat} (h : (UnpackedFloat.mul .binary64 a b).isFinite = true) :
    a.isFinite = true ∧ b.isFinite = true := by
  cases a with
  | notANumber => cases b <;> cases h
  | infinity s => cases b <;> cases h
  | zero s | finite s m e hm =>
    cases b with
    | notANumber | infinity t => cases h
    | zero t | finite t m' e' hm' => exact ⟨rfl, rfl⟩

theorem exists_denotes_of_isFinite_mul (hx : 0 < x) (hy : 0 < y) (h : (x * y).isFinite = true) :
    ∃ v w, Denotes x v ∧ Denotes y w ∧ 0 < v ∧ 0 < w := by
  obtain ⟨hfiniteX, hfiniteY⟩ := isFinite_of_isFinite_mul (isFinite_of_isFinite_pack h)
  obtain ⟨v, hv⟩ := isFinite_iff.1 hfiniteX
  obtain ⟨w, hw⟩ := isFinite_iff.1 hfiniteY
  exact ⟨v, w, hv, hw, hv.pos_iff.1 hx, hw.pos_iff.1 hy⟩

theorem Denotes.isNaN (h : Denotes x v) : x.isNaN = false := by
  change x.toModel.unpack.isNaN = false
  have hunpacked := h.unpacked
  generalize x.toModel.unpack = u at hunpacked
  cases hunpacked <;> rfl

theorem Denotes.amount? (h : Denotes x v) : (view x).amount? = some ((v : Real) : EReal) :=
  Number.amount?_of_denotes h

theorem Canonical.value_lt (h : Canonical m e) : (m * 2 ^ e : Rat) < 2 ^ (1024 : Int) := by
  have hlt : (m : Rat) < 2 ^ 53 := by exact_mod_cast h.lt
  calc
    (m * 2 ^ e : Rat) < 2 ^ 53 * 2 ^ e := by gcongr
    _ ≤ 2 ^ 53 * 2 ^ (971 : Int) := by
      gcongr
      . norm_num
      . exact h.le_greatest
    _ = 2 ^ (1024 : Int) := by
      rw [← zpow_natCast, ← zpow_add₀ (by norm_num)]
      norm_num

theorem Denotes.abs_lt (h : Denotes x v) : |v| < 2 ^ (1024 : Int) := by
  have hunpacked := h.unpacked
  generalize x.toModel.unpack = u at hunpacked
  cases hunpacked with
  | zero s => simp
  | finite s hc =>
    rw [abs_mul, abs_unit, one_mul, abs_of_pos hc.value_pos]
    exact hc.value_lt

theorem denotes_div_infinite {negative : Bool} (hx : Denotes x v) (hy : view y = .infinite negative) :
    Denotes (x / y) 0 := by
  obtain ⟨t, ht, -⟩ := unpack_of_view_infinite hy
  have hunpacked := hx.unpacked
  change Denotes (.ofModel (.pack (UnpackedFloat.div .binary64 x.toModel.unpack y.toModel.unpack))) 0
  rw [ht]
  generalize x.toModel.unpack = u at hunpacked
  cases hunpacked with
  | zero s | finite s hc => exact denotes_pack_zero (s / t)

theorem Rounded.exists_amount? (h : Rounded x v) (hv : 0 ≤ v) :
    ∃ q, (view x).amount? = some q ∧ 0 ≤ q ∧ (q = 0 ↔ v = 0) := by
  cases h with
  | @finite r hr hx =>
    refine ⟨_, hx.amount?, ?_, ?_⟩
    . exact_mod_cast hr.nonneg hv
    . rw [← hr.eq_zero_iff]
      exact_mod_cast Iff.rfl
  | infinite hne hx =>
    have hsign : decide (v < 0) = false := decide_eq_false (not_lt.2 hv)
    refine ⟨⊤, ?_, le_top, ?_⟩
    . rw [hx, hsign]
      rfl
    . exact iff_of_false EReal.top_ne_zero hne

theorem Rounded.pos_iff (h : Rounded x v) (hv : 0 ≤ v) : 0 < x ↔ 0 < v := by
  obtain ⟨q, hq, hnonneg, hzero⟩ := h.exists_amount? hv
  rw [lt_iff_of_amount? denotes_zero.amount? hq, Rat.cast_zero, EReal.coe_zero]
  rw [hnonneg.lt_iff_ne, hv.lt_iff_ne, ne_comm, ne_comm (a := 0), ne_eq, ne_eq, hzero]

end Binary
end TurtleCurves
