import TurtleCurves.Proofs.Curve.Folding
import TurtleCurves.Proofs.Curve.Span

/-!
This module contains the dragon on the lattice of Gaussian integers, as the beginning of one infinite
walk. Twice as far along, this walk is where it was, turned by 45 degrees and longer by the square root of
two, so every edge is replaced by two that meet beside it. As even and odd vertices alternate, an edge can
be told from each of the two that replace it, which is why none is ever drawn again.
-/

namespace TurtleCurves
namespace Dragon

theorem fold_double (k : Nat) : fold (2 * k) = fold k := by
  by_cases hk : k = 0
  . rw [hk]
  . obtain ⟨a, b, hb, rfl⟩ := Nat.exists_eq_two_pow_mul_odd hk
    rw [Nat.odd_iff] at hb
    rw [← Nat.mul_assoc, ← pow_succ']
    rw [fold_pow_mul hb, fold_pow_mul hb]

theorem fold_odd (k : Nat) : fold (2 * k + 1) = if k % 2 = 0 then 1 else -1 := by
  have hfold := fold_pow_mul (m := 2 * k + 1) (by omega) 0
  rw [Nat.pow_zero, Nat.one_mul] at hfold
  rw [hfold]
  congr 1
  rw [eq_iff_iff]
  omega

theorem fold_eq (k : Nat) : fold k = 1 ∨ fold k = -1 := by
  unfold fold
  split
  . exact .inl rfl
  . exact .inr rfl

def left : GaussianInt := ⟨0, 1⟩

theorem left_mul_left : left * left = -1 := rfl

def leg : Nat → GaussianInt
  | 0 => 1
  | k + 1 => fold (k + 1) * left * leg k

def vertex : Nat → GaussianInt
  | 0 => 0
  | k + 1 => vertex k + leg k

theorem leg_double (k : Nat) :
    (k % 2 = 0 → leg (2 * k) = leg k ∧ leg (2 * k + 1) = left * leg k) ∧
      (k % 2 = 1 → leg (2 * k) = left * leg k ∧ leg (2 * k + 1) = leg k) := by
  induction k with
  | zero =>
    have hfold : fold 1 = 1 := fold_odd 0
    simp [leg, hfold]
  | succ k ih =>
    obtain ⟨heven, hodd⟩ := ih
    have hnext : leg (2 * (k + 1)) = fold (k + 1) * left * leg (2 * k + 1) := by
      rw [← fold_double]
      rfl
    have hlast : leg (2 * (k + 1) + 1) = fold (2 * (k + 1) + 1) * left * leg (2 * (k + 1)) := rfl
    rw [hlast, hnext, fold_odd]
    constructor
    . intro hk
      rw [(hodd (by omega)).2, if_pos hk]
      simp [leg]
    . intro hk
      rw [(heven (by omega)).2, if_neg (by omega)]
      simp only [leg]
      push_cast
      constructor
      . ring
      . linear_combination -(fold (k + 1) * left * leg k : GaussianInt) * left_mul_left

theorem vertex_double (k : Nat) : vertex (2 * k) = (1 + left) * vertex k := by
  induction k with
  | zero => simp [vertex]
  | succ k ih =>
    have hnext : vertex (2 * (k + 1)) = vertex (2 * k) + leg (2 * k) + leg (2 * k + 1) := rfl
    obtain ⟨heven, hodd⟩ := leg_double k
    rw [hnext, ih]
    simp only [vertex]
    by_cases hk : k % 2 = 0
    . rw [(heven hk).1, (heven hk).2]
      ring
    . rw [(hodd (by omega)).1, (hodd (by omega)).2]
      ring

def evenEnd (k : Nat) : GaussianInt :=
  vertex (2 * ((k + 1) / 2))

def oddEnd (k : Nat) : GaussianInt :=
  vertex (2 * (k / 2) + 1)

theorem ends_of_even {k : Nat} (hk : k % 2 = 0) :
    evenEnd k = vertex k ∧ oddEnd k = vertex (k + 1) := by
  unfold evenEnd oddEnd
  constructor
  . congr 1
    omega
  . congr 1
    omega

theorem ends_of_odd {k : Nat} (hk : k % 2 = 1) :
    evenEnd k = vertex (k + 1) ∧ oddEnd k = vertex k := by
  unfold evenEnd oddEnd
  constructor
  . congr 1
    omega
  . congr 1
    omega

-- The two edges that replace an edge meet here. It does not matter in which direction the edge was drawn.
theorem vertex_middle (k : Nat) : vertex (2 * k + 1) = oddEnd k + left * evenEnd k := by
  have hnext : vertex (2 * k + 1) = vertex (2 * k) + leg (2 * k) := rfl
  obtain ⟨heven, hodd⟩ := leg_double k
  rw [hnext, vertex_double]
  by_cases hk : k % 2 = 0
  . rw [(ends_of_even hk).1, (ends_of_even hk).2, (heven hk).1]
    simp only [vertex]
    ring
  . have hk : k % 2 = 1 := by omega
    rw [(ends_of_odd hk).1, (ends_of_odd hk).2, (hodd hk).1]
    simp only [vertex]
    ring

theorem norm_leg (k : Nat) : (leg k).norm = 1 := by
  induction k with
  | zero => rfl
  | succ k ih =>
    have hleft : left.norm = 1 := rfl
    simp only [leg, Zsqrtd.norm_mul, ih, hleft, Zsqrtd.norm_intCast]
    obtain h | h := fold_eq (k + 1) <;> simp [h]

theorem leg_parity (k : Nat) : ((leg k).re + (leg k).im) % 2 = 1 := by
  induction k with
  | zero => rfl
  | succ k ih =>
    have hre : (leg (k + 1)).re = -(fold (k + 1) * (leg k).im) := by simp [leg, left]
    have him : (leg (k + 1)).im = fold (k + 1) * (leg k).re := by simp [leg, left]
    rw [hre, him]
    obtain h | h := fold_eq (k + 1)
    . rw [h]
      omega
    . rw [h]
      omega

theorem vertex_parity (k : Nat) : ((vertex k).re + (vertex k).im) % 2 = k % 2 := by
  induction k with
  | zero => rfl
  | succ k ih =>
    have hleg := leg_parity k
    simp only [vertex, Zsqrtd.re_add, Zsqrtd.im_add]
    omega

theorem parity_eq_of_vertex_eq {j k : Nat} (h : vertex j = vertex k) : j % 2 = k % 2 := by
  have hj := vertex_parity j
  have hk := vertex_parity k
  rw [h] at hj
  omega

theorem half_eq_of_even {k : Nat} (hk : (k + 1) / 2 % 2 = 0) :
    vertex ((k + 1) / 2) = evenEnd (k / 2) := by
  unfold evenEnd
  congr 1
  omega

theorem half_eq_of_odd {k : Nat} (hk : (k + 1) / 2 % 2 = 1) :
    vertex ((k + 1) / 2) = oddEnd (k / 2) := by
  unfold oddEnd
  congr 1
  omega

theorem one_add_left_mul_inj {z w : GaussianInt} (h : (1 + left) * z = (1 + left) * w) : z = w := by
  have hne : (1 + left : GaussianInt) ≠ 0 := by decide
  exact mul_left_cancel₀ hne h

theorem left_mul_inj {z w : GaussianInt} (h : left * z = left * w) : z = w := by
  have hne : (left : GaussianInt) ≠ 0 := by decide
  exact mul_left_cancel₀ hne h

-- The ends of an edge tell the ends of the edge that it grew from, and by induction the place of that one.
-- Which of its two halves the edge is shows in the parity of the end that they do not share.
theorem place_eq_of_ends_eq (j k : Nat) (heven : evenEnd j = evenEnd k)
    (hodd : oddEnd j = oddEnd k) :
    j = k := by
  by_cases hzero : j + k = 0
  . omega
  . have hhalf : vertex ((j + 1) / 2) = vertex ((k + 1) / 2) := by
      unfold evenEnd at heven
      rw [vertex_double, vertex_double] at heven
      exact one_add_left_mul_inj heven
    have hmiddle : oddEnd (j / 2) + left * evenEnd (j / 2)
        = oddEnd (k / 2) + left * evenEnd (k / 2) := by
      unfold oddEnd at hodd
      rw [vertex_middle, vertex_middle] at hodd
      exact hodd
    have hparity := parity_eq_of_vertex_eq hhalf
    have hplace : j / 2 = k / 2 := by
      by_cases hj : (j + 1) / 2 % 2 = 0
      . rw [half_eq_of_even hj, half_eq_of_even (by omega)] at hhalf
        rw [hhalf] at hmiddle
        exact place_eq_of_ends_eq (j / 2) (k / 2) hhalf (add_right_cancel hmiddle)
      . rw [half_eq_of_odd (by omega), half_eq_of_odd (by omega)] at hhalf
        rw [hhalf] at hmiddle
        exact place_eq_of_ends_eq (j / 2) (k / 2) (left_mul_inj (add_left_cancel hmiddle)) hhalf
    omega
termination_by j + k

def edge (k : Nat) : Sym2 GaussianInt :=
  s(vertex k, vertex (k + 1))

theorem edge_eq (k : Nat) : edge k = s(evenEnd k, oddEnd k) := by
  unfold edge
  by_cases hk : k % 2 = 0
  . rw [(ends_of_even hk).1, (ends_of_even hk).2]
  . rw [(ends_of_odd (by omega)).1, (ends_of_odd (by omega)).2]
    exact Sym2.eq_swap

theorem edge_injective : Function.Injective edge := by
  intro j k h
  rw [edge_eq, edge_eq, Sym2.eq_iff] at h
  obtain ⟨heven, hodd⟩ | ⟨heven, _⟩ := h
  . exact place_eq_of_ends_eq j k heven hodd
  . have hparity := parity_eq_of_vertex_eq heven
    omega

def bearings : Int → List Int → List Int
  | _, [] => []
  | heading, turned :: rest => (heading + 90 * turned) :: bearings (heading + 90 * turned) rest

theorem turnOf_eq (s : Symbol) : pattern.turnOf s = 90 * quarter s := by
  simp only [Pattern.turnOf, pattern, motion?, quarter]
  grind [angle, F, plus, minus]

-- The quarters turned since the last step are added to the heading before they are counted as a gap.
theorem headings_eq_bearings (heading turned : Int) (word : List Symbol) :
    pattern.headings (heading + 90 * turned) word = bearings heading (gaps turned word) := by
  induction word generalizing heading turned with
  | nil => rfl
  | cons s rest ih =>
    by_cases hs : s = F
    . subst hs
      have hrest := ih (heading + 90 * turned) 0
      rw [Int.mul_zero, Int.add_zero] at hrest
      rw [Pattern.headings_of_forward motion?_letters.1]
      rw [gaps_F, bearings]
      rw [hrest]
    . have hforward : pattern.motion? s ≠ some .forward := by
        rw [ne_eq, motion?_eq_forward_iff]
        exact hs
      rw [Pattern.headings, if_neg hforward, List.nil_append]
      rw [gaps, if_neg hs]
      rw [← ih, turnOf_eq]
      congr 1
      ring

theorem direction_fold (k : Nat) : direction (90 * fold k) = ((fold k * left : GaussianInt) : ℂ) := by
  have hleft : (left : ℂ) = Complex.I := by
    simp [left, GaussianInt.toComplex_def]
  rw [map_mul, hleft]
  obtain h | h := fold_eq k
  . rw [h]
    simp [direction_90]
  . rw [h]
    simp [direction_neg_90]

theorem directions_bearings {heading : Int} {k : Nat} (hk : direction heading = (leg k : ℂ))
    (count : Nat) :
    (bearings heading (creases (k + 1) count)).map direction
      =
    (List.range' (k + 1) count).map fun j => (leg j : ℂ) := by
  induction count generalizing heading k with
  | zero => rfl
  | succ count ih =>
    have hnext : direction (heading + 90 * fold (k + 1)) = (leg (k + 1) : ℂ) := by
      rw [direction_add]
      rw [hk, direction_fold]
      rw [← map_mul]
      rw [mul_comm]
      rfl
    rw [creases_succ, bearings]
    rw [List.map_cons, List.range'_succ, List.map_cons]
    rw [hnext, ih hnext]

theorem legs_word (n : Nat) :
    pattern.legs (F :: pattern.grown n X) = (List.range (2 ^ n)).map fun k => (leg k : ℂ) := by
  have hpos : 0 < 2 ^ n := Nat.two_pow_pos n
  have hcount : 2 ^ n = (2 ^ n - 1) + 1 := by omega
  have hfirst : direction 0 = (leg 0 : ℂ) := by simp [leg]
  have hheadings := headings_eq_bearings 0 0 (pattern.grown n X)
  rw [(creased n).gaps_X] at hheadings
  unfold Pattern.legs
  rw [Pattern.headings_of_forward motion?_letters.1]
  change direction 0 :: (pattern.headings (0 + 90 * 0) (pattern.grown n X)).map direction = _
  rw [hheadings]
  rw [directions_bearings hfirst]
  rw [List.range_eq_range', hcount, List.range'_succ, List.map_cons]
  rw [hfirst]
  rfl

theorem walk_legs (k count : Nat) :
    walk (vertex k) ((List.range' k count).map fun j => (leg j : ℂ))
      =
    (List.range' k count).map fun j => ((vertex j : ℂ), (vertex (j + 1) : ℂ)) := by
  induction count generalizing k with
  | zero => rfl
  | succ count ih =>
    have hnext : (vertex k : ℂ) + leg k = vertex (k + 1) := by
      rw [← map_add]
      rfl
    rw [List.range'_succ, List.map_cons, List.map_cons]
    rw [walk, hnext]
    rw [ih]

/--
With unit steps and exact quarter turns the dragon goes from one lattice point to the next, and no two of
its lines lie on the same edge of the lattice, in whichever direction.
-/
theorem distinct_edges (n : Nat) :
    ∃ word pen, pattern.word n = .ok word ∧ pattern.follow (1 : ℝ) Pen.fresh word = .ok pen ∧
      ∃ corner : Nat → GaussianInt,
        pen.path.lines
          = (List.range (2 ^ n)).map (fun k => ((corner k : ℂ), (corner (k + 1) : ℂ))) ∧
        (∀ k, (corner (k + 1) - corner k).norm = 1) ∧
        pen.path.lines.length = 2 ^ n ∧
        (pen.path.lines.map fun line => s(line.1, line.2)).Nodup := by
  have hword := Pattern.motion?_ne_none_of_word grammar_closed motion?_ne_none (word_eq n)
  obtain ⟨pen, hpen, hwalk⟩ := Pattern.exists_walk hword
  have hlines : pen.path.lines
      = (List.range (2 ^ n)).map fun k => ((vertex k : ℂ), (vertex (k + 1) : ℂ)) := by
    have hzero : (vertex 0 : ℂ) = 0 := map_zero _
    rw [hwalk, legs_word, List.range_eq_range', ← hzero]
    apply walk_legs
  have hedges : (pen.path.lines.map fun line => s(line.1, line.2))
      = ((List.range (2 ^ n)).map edge).map (Sym2.map GaussianInt.toComplex) := by
    rw [hlines]
    simp only [List.map_map]
    rfl
  refine ⟨_, pen, word_eq n, hpen, vertex, hlines, ?_, ?_, ?_⟩
  . intro k
    rw [vertex, add_sub_cancel_left]
    exact norm_leg k
  . rw [hlines]
    simp
  . rw [hedges]
    apply List.Nodup.map (Sym2.map.injective GaussianInt.toComplex_injective)
    exact List.nodup_range.map edge_injective

end Dragon
end TurtleCurves
