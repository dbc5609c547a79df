import TurtleCurves.Proofs.Curve.Closure
import TurtleCurves.Proofs.Curve.Span

/-!
This module contains the headings of single steps. A pass replaces every step by the same number of
steps, each turned from it by an offset, so the digits of a step's place tell all offsets that it has
been turned by.
-/

namespace TurtleCurves

theorem getElem?_flatMap_blocks {α β : Type} {f : α → List β} {size : Nat}
    (hf : ∀ a, (f a).length = size) (xs : List α) (q : Nat) {r : Nat} (hr : r < size) :
    (xs.flatMap f)[size * q + r]? = xs[q]?.bind fun a => (f a)[r]? := by
  induction xs generalizing q with
  | nil => simp
  | cons a rest ih =>
    rw [List.flatMap_cons]
    cases q with
    | zero =>
      rw [List.getElem?_append_left (by rw [hf]; omega)]
      simp
    | succ q =>
      have hskip : size * (q + 1) + r = size + (size * q + r) := by ring
      rw [hskip]
      rw [List.getElem?_append_right (by rw [hf]; omega), hf]
      rw [Nat.add_sub_cancel_left]
      exact ih q

theorem count_digits {base r c : Nat} (hbase : 1 < base) (hr : r < base) (hc : c ≠ 0) (q : Nat) :
    (Nat.digits base (base * q + r)).count c
      =
    (Nat.digits base q).count c + if r = c then 1 else 0 := by
  by_cases hzero : r = 0 ∧ q = 0
  . obtain ⟨rfl, rfl⟩ := hzero
    simp [hc.symm]
  . rw [Nat.add_comm (base * q)]
    rw [Nat.digits_add base hbase r q hr (by omega)]
    rw [List.count_cons]
    simp only [beq_iff_eq]

namespace Pattern

variable {p : Pattern} {base : Symbol} {offsets : List Int}

namespace Branches

variable (h : p.Branches base offsets)
include h

theorem getElem?_headings (law : Nat → Nat → Int) (hzero : law 0 0 = 0)
    (hsucc : ∀ n q r offset, offsets[r]? = some offset →
      law (n + 1) (offsets.length * q + r) = law n q + offset)
    {n k : Nat} (hk : k < offsets.length ^ n) :
    (p.headings 0 (p.grown n base))[k]? = some (law n k) := by
  induction n generalizing k with
  | zero =>
    rw [Nat.pow_zero, Nat.lt_one_iff] at hk
    subst hk
    rw [grown_zero, headings_of_forward h.motion?_base, hzero]
    rfl
  | succ n ih =>
    have hpos : 0 < offsets.length := by
      apply Nat.pos_of_ne_zero
      intro hempty
      simp [hempty] at hk
    have hr : k % offsets.length < offsets.length := Nat.mod_lt k hpos
    have hq : k / offsets.length < offsets.length ^ n := by
      rw [Nat.div_lt_iff_lt_mul hpos, ← pow_succ]
      exact hk
    have hplace := Nat.div_add_mod k offsets.length
    rw [h.headings_succ]
    conv => lhs; rw [← hplace]
    rw [getElem?_flatMap_blocks (by simp) _ _ hr]
    rw [ih hq]
    conv => rhs; rw [← hplace]
    rw [hsucc n _ _ _ (List.getElem?_eq_getElem hr)]
    simp [hr]

end Branches

/--
A letter stands at a place of a sequence, where only that letter counts, and the turns before it add up to
a heading.
-/
def HeadsAt (p : Pattern) (word : List Symbol) (s : Symbol) (k : Nat) (heading : Int) : Prop :=
  ∃ before after, word = before ++ s :: after ∧ before.count s = k ∧
    (before.map p.turnOf).sum = heading

theorem exists_of_heading (hbase : ∀ s, p.motion? s = some .forward ↔ s = base) {start heading : Int}
    {word : List Symbol} {k : Nat} (hk : (p.headings start word)[k]? = some heading) :
    ∃ before after, word = before ++ base :: after ∧ before.count base = k ∧
      start + p.netTurn before = heading := by
  induction word generalizing start k with
  | nil => simp at hk
  | cons s rest ih =>
    by_cases hs : s = base
    . subst hs
      have hforward : p.motion? s = some .forward := (hbase s).2 rfl
      rw [headings_of_forward hforward] at hk
      cases k with
      | zero =>
        cases hk
        exact ⟨[], rest, rfl, rfl, by simp⟩
      | succ k =>
        obtain ⟨before, after, rfl, hcount, hheading⟩ := ih hk
        refine ⟨s :: before, after, rfl, ?_, ?_⟩
        . rw [List.count_cons_self, hcount]
        . rw [netTurn_of_forward hforward]
          exact hheading
    . have hforward : p.motion? s ≠ some .forward := fun hmotion => hs ((hbase s).1 hmotion)
      rw [headings, if_neg hforward, List.nil_append] at hk
      obtain ⟨before, after, rfl, hcount, hheading⟩ := ih hk
      refine ⟨s :: before, after, rfl, ?_, ?_⟩
      . rw [List.count_cons_of_ne hs, hcount]
      . rw [netTurn_cons, ← add_assoc]
        exact hheading

theorem headsAt_of_heading (hbase : ∀ s, p.motion? s = some .forward ↔ s = base) {heading : Int}
    {word : List Symbol} {k : Nat} (hk : (p.headings 0 word)[k]? = some heading) :
    p.HeadsAt word base k heading := by
  obtain ⟨before, after, hword, hcount, hheading⟩ := exists_of_heading hbase hk
  rw [zero_add] at hheading
  exact ⟨before, after, hword, hcount, hheading⟩

namespace Spiked

variable {left right : Symbol} {degrees : Int} (h : p.Spiked base left right degrees)
include h

theorem getElem?_headings {n m : Nat} (hm : m < 4 ^ n) :
    (p.headings 0 (p.grown n base))[m]?
      =
    some (degrees * (((Nat.digits 4 m).count 1 : Int) - (Nat.digits 4 m).count 2)) := by
  let law (_ m : Nat) : Int := degrees * (((Nat.digits 4 m).count 1 : Int) - (Nat.digits 4 m).count 2)
  apply h.branches.getElem?_headings law _ _ hm
  . simp [law]
  . intro _ q r offset hr
    obtain ⟨hlt, rfl⟩ := List.getElem?_eq_some_iff.1 hr
    simp only [law, List.length_cons, List.length_nil] at hlt ⊢
    rw [count_digits (by decide) hlt (by decide), count_digits (by decide) hlt (by decide)]
    push_cast
    interval_cases r <;> simp <;> ring

theorem getElem?_polygon {sides n j m : Nat} (hj : j < sides) (hm : m < 4 ^ n) (corner : Int) :
    (polygon sides corner (p.headings 0 (p.grown n base)))[4 ^ n * j + m]?
      =
    some (corner * j + degrees * (((Nat.digits 4 m).count 1 : Int) - (Nat.digits 4 m).count 2)) := by
  unfold polygon
  rw [getElem?_flatMap_blocks (by simp [h.length_headings]) _ _ hm]
  simp [hj, h.getElem?_headings hm, Int.add_comm]

end Spiked

end Pattern

namespace Levy

theorem branches : pattern.Branches F [45, -45] where
  motion?_base := motion?_letters.1
  headings_grown := by
    intro n heading
    obtain ⟨_, hplus, hminus⟩ := motion?_letters
    have hright : heading + 45 + -45 + -45 = heading + -45 := by omega
    rw [grown_F]
    simp only [Pattern.headings_append, Pattern.headings_of_turn hplus,
      Pattern.headings_of_turn hminus, netTurn_grown, Pattern.headings_nil, List.flatMap_cons,
      List.flatMap_nil, List.append_nil, Int.add_zero, hright]

theorem getElem?_headings {n k : Nat} (hk : k < 2 ^ n) :
    (pattern.headings 0 (pattern.grown n F))[k]?
      =
    some (45 * ((n : Int) - 2 * (Nat.digits 2 k).count 1)) := by
  let law (n k : Nat) : Int := 45 * ((n : Int) - 2 * (Nat.digits 2 k).count 1)
  apply branches.getElem?_headings law _ _ hk
  . simp [law]
  . intro n q r offset hr
    obtain ⟨hlt, rfl⟩ := List.getElem?_eq_some_iff.1 hr
    simp only [law, List.length_cons, List.length_nil] at hlt ⊢
    rw [count_digits (by decide) hlt (by decide)]
    push_cast
    interval_cases r <;> simp <;> ring

end Levy

/--
The steps of the Lévy C curve are turned by 45 degrees to the left for every binary digit of their place
that is zero and to the right for every one. The steps of the snowflake and of the Césaro curve are turned
like their side and then to the left for every digit one of their place on it and to the right for every
two, to the base four.
-/
theorem heading_by_digits (n : Nat) :
    (∃ word, Levy.pattern.word n = .ok word ∧ ∀ k < 2 ^ n,
      Levy.pattern.HeadsAt word Levy.F k (45 * ((n : Int) - 2 * (Nat.digits 2 k).count 1))) ∧
    (∃ word, Koch.pattern.word n = .ok word ∧ ∀ j < 3, ∀ m < 4 ^ n,
      Koch.pattern.HeadsAt word Koch.F (j * 4 ^ n + m)
        (-120 * j + 60 * (((Nat.digits 4 m).count 1 : Int) - (Nat.digits 4 m).count 2))) ∧
    ∃ word, Cesaro.pattern.word n = .ok word ∧ ∀ j < 4, ∀ m < 4 ^ n,
      Cesaro.pattern.HeadsAt word Cesaro.F (j * 4 ^ n + m)
        (90 * j + 85 * (((Nat.digits 4 m).count 1 : Int) - (Nat.digits 4 m).count 2)) := by
  refine ⟨⟨_, Levy.word_eq n, ?_⟩, ⟨_, Koch.word_eq n, ?_⟩, ⟨_, Cesaro.word_eq n, ?_⟩⟩
  . intro k hk
    apply Pattern.headsAt_of_heading Levy.motion?_eq_forward_iff
    exact Levy.getElem?_headings hk
  . intro j hj m hm
    apply Pattern.headsAt_of_heading Koch.motion?_eq_forward_iff
    rw [Koch.headings_word n (Koch.word_eq n), Nat.mul_comm j]
    exact Koch.spiked.getElem?_polygon hj hm (-120)
  . intro j hj m hm
    apply Pattern.headsAt_of_heading Cesaro.motion?_eq_forward_iff
    rw [Cesaro.headings_word n (Cesaro.word_eq n), Nat.mul_comm j]
    exact Cesaro.spiked.getElem?_polygon hj hm 90

theorem heading_by_digits_second :
    (3 < 2 ^ 2 ∧ ∃ word, Levy.pattern.word 2 = .ok word ∧
      Levy.pattern.HeadsAt word Levy.F 3 (-90)) ∧
    (1 < 3 ∧ 10 < 4 ^ 2 ∧ ∃ word, Koch.pattern.word 2 = .ok word ∧
      Koch.pattern.HeadsAt word Koch.F 26 (-240)) ∧
    (2 < 4 ∧ 13 < 4 ^ 2 ∧ ∃ word, Cesaro.pattern.word 2 = .ok word ∧
      Cesaro.pattern.HeadsAt word Cesaro.F 45 265) := by
  have hlevy : 3 < 2 ^ 2 := by decide
  have hkoch : 10 < 4 ^ 2 := by decide
  have hcesaro : 13 < 4 ^ 2 := by decide
  obtain ⟨⟨levy, hlevyword, hlevyheads⟩, ⟨koch, hkochword, hkochheads⟩, cesaro, hcesaroword,
    hcesaroheads⟩ := heading_by_digits 2
  refine ⟨⟨hlevy, levy, hlevyword, ?_⟩, ⟨by decide, hkoch, koch, hkochword, ?_⟩,
    by decide, hcesaro, cesaro, hcesaroword, ?_⟩
  . simpa using hlevyheads 3 hlevy
  . simpa using hkochheads 1 (by decide) 10 hkoch
  . simpa using hcesaroheads 2 (by decide) 13 hcesaro

end TurtleCurves
