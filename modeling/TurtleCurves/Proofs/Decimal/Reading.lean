import Mathlib.Tactic.IntervalCases
import TurtleCurves.Decimal.Reading
import TurtleCurves.Proofs.Decimal.Shortest

/-!
This module contains the reading of written numbers. The text of a decimal is read as a literal of the
same value, whichever of its three shapes it has, and so the text of a double is read as that double.
-/

namespace TurtleCurves
namespace Decimal

variable {cs ds rest tail tail' whole fraction : List Char} {exponent : Option Int} {c : Char} {n : Nat}

def NoDigit (rest : List Char) : Prop :=
  ∀ c ∈ rest.head?, c.isDigit = false

structure Ends (rest : List Char) : Prop where
  noDigit : NoDigit rest
  noPoint : rest.head? ≠ some '.'
  noPower : ∀ c ∈ rest.head?, ¬(c = 'e' ∨ c = 'E')

theorem ends_nil : Ends [] :=
  ⟨by simp [NoDigit], by simp, by simp⟩

theorem ends_cons (hdigit : c.isDigit = false) (hpoint : c ≠ '.') (hpower : ¬(c = 'e' ∨ c = 'E')) :
    Ends (c :: rest) := by
  refine ⟨?_, by simpa using hpoint, ?_⟩
  . intro c hc
    cases hc
    exact hdigit
  . intro c hc
    cases hc
    exact hpower

theorem noDigit_cons (h : c.isDigit = false) : NoDigit (c :: rest) := by
  intro c hc
  cases hc
  exact h

theorem spanDigits_append (hdigits : ∀ c ∈ ds, c.isDigit) (hrest : NoDigit rest) :
    spanDigits (ds ++ rest) = (ds, rest) := by
  have hstop : rest.takeWhile Char.isDigit = [] ∧ rest.dropWhile Char.isDigit = rest := by
    cases rest with
    | nil => exact ⟨rfl, rfl⟩
    | cons c rest =>
      have hc : c.isDigit = false := hrest c rfl
      simp [hc]
  unfold spanDigits
  rw [List.takeWhile_append_of_pos hdigits, List.dropWhile_append_of_pos hdigits]
  rw [hstop.1, hstop.2]
  rw [List.append_nil]

structure IsWhole (ds : List Char) : Prop where
  digits : ∀ c ∈ ds, c.isDigit
  ne_nil : ds ≠ []
  lead : ds = ['0'] ∨ ds.head? ≠ some '0'

theorem head?_toDigits (h : 0 < n) : (Nat.toDigits 10 n).head? ≠ some '0' := by
  induction n using Nat.strongRecOn with
  | ind n ih =>
    by_cases hlt : n < 10
    . rw [Nat.toDigits_of_lt_base hlt]
      interval_cases n <;> simp
    . rw [Nat.toDigits_of_base_le (by norm_num) (by omega)]
      rw [List.head?_append_of_ne_nil _ Nat.toDigits_ne_nil]
      exact ih (n / 10) (by omega) (by omega)

theorem isWhole_toDigits (n : Nat) : IsWhole (Nat.toDigits 10 n) := by
  refine ⟨?_, Nat.toDigits_ne_nil, ?_⟩
  . intro c hc
    exact Nat.isDigit_of_mem_toDigits (by norm_num) (by norm_num) hc
  . by_cases hzero : n = 0
    . left
      rw [hzero]
      rfl
    . right
      exact head?_toDigits (Nat.pos_of_ne_zero hzero)

theorem readWhole_append (hwhole : IsWhole whole) (htail : NoDigit tail) :
    readWhole (whole ++ tail) = some (whole, tail) := by
  obtain ⟨hdigits, hne, hlead⟩ := hwhole
  cases whole with
  | nil => exact absurd rfl hne
  | cons c ds =>
    by_cases hzero : c = '0'
    . subst hzero
      have hnil : ds = [] := by simpa using hlead
      rw [hnil]
      rfl
    . have hspan := spanDigits_append hdigits htail
      rw [List.cons_append] at hspan ⊢
      unfold readWhole
      split
      . next heq =>
        cases heq
        exact absurd rfl hzero
      . rw [hspan]

theorem readFraction_append (hdigits : ∀ c ∈ ds, c.isDigit) (hne : ds ≠ []) (htail : NoDigit tail) :
    readFraction ('.' :: (ds ++ tail)) = (ds, tail) := by
  have hspan := spanDigits_append hdigits htail
  cases ds with
  | nil => exact absurd rfl hne
  | cons c ds => simp only [readFraction, hspan]

theorem readFraction_of_head?_ne (h : tail.head? ≠ some '.') : readFraction tail = ([], tail) := by
  unfold readFraction
  split
  . exact absurd rfl h
  . rfl

theorem readExponent_of_head? (h : ∀ c ∈ tail.head?, ¬(c = 'e' ∨ c = 'E')) :
    readExponent tail = (none, tail) := by
  cases tail with
  | nil => rfl
  | cons c after => simp [readExponent, h c rfl]

theorem digitsValue_eq (cs : List Char) : digitsValue cs = Nat.ofDigitChars 10 cs 0 :=
  Nat.ofDigitChars_eq_foldl.symm

theorem digitsValue_append (cs ds : List Char) :
    digitsValue (cs ++ ds) = 10 ^ ds.length * digitsValue cs + digitsValue ds := by
  simp only [digitsValue_eq]
  rw [Nat.ofDigitChars_append]
  rw [Nat.ofDigitChars_eq_ofDigitChars_zero]

@[simp]
theorem digitsValue_toDigits (n : Nat) : digitsValue (Nat.toDigits 10 n) = n := by
  rw [digitsValue_eq]
  exact Nat.ofDigitChars_ten_toDigits

@[simp]
theorem digitsValue_zeros (k : Nat) : digitsValue (List.replicate k '0') = 0 := by
  rw [digitsValue_eq]
  rw [Nat.ofDigitChars_replicate_zero]
  omega

theorem isDigit_zeros (k : Nat) : ∀ c ∈ List.replicate k '0', c.isDigit := by
  intro c hc
  rw [List.eq_of_mem_replicate hc]
  rfl

def powerDigits (n : Nat) : List Char :=
  if (Nat.toDigits 10 n).length < 2 then '0' :: Nat.toDigits 10 n else Nat.toDigits 10 n

theorem toList_exponentText (x : Int) :
    (exponentText x).toList = (if x < 0 then '-' else '+') :: powerDigits x.natAbs := by
  have hlength : (Nat.repr x.natAbs).length = (Nat.toDigits 10 x.natAbs).length := by
    rw [← String.length_toList, Nat.toList_repr]
  unfold exponentText powerDigits
  simp only [hlength]
  split <;> split <;> simp [Nat.toList_repr]

theorem isDigit_powerDigits (n : Nat) : ∀ c ∈ powerDigits n, c.isDigit := by
  have hdigits := (isWhole_toDigits n).digits
  unfold powerDigits
  split
  . intro c hc
    rcases List.mem_cons.1 hc with rfl | hc
    . rfl
    . exact hdigits c hc
  . exact hdigits

theorem digitsValue_powerDigits (n : Nat) : digitsValue (powerDigits n) = n := by
  unfold powerDigits
  split
  . exact digitsValue_toDigits n
  . exact digitsValue_toDigits n

theorem powerDigits_ne_nil (n : Nat) : powerDigits n ≠ [] := by
  unfold powerDigits
  split
  . exact List.cons_ne_nil _ _
  . exact Nat.toDigits_ne_nil

theorem readExponent_exponentText (x : Int) (hrest : NoDigit rest) :
    readExponent ('e' :: ((exponentText x).toList ++ rest)) = (some x, rest) := by
  have hspan := spanDigits_append (isDigit_powerDigits x.natAbs) hrest
  have hvalue := digitsValue_powerDigits x.natAbs
  have hsign : readSign ((exponentText x).toList ++ rest) = (decide (x < 0), powerDigits x.natAbs ++ rest) := by
    rw [toList_exponentText]
    by_cases hneg : x < 0 <;> simp [hneg, readSign]
  unfold readExponent
  simp only [true_or, if_true, hsign, hspan]
  cases hpower : powerDigits x.natAbs with
  | nil => exact absurd hpower (powerDigits_ne_nil _)
  | cons c ds =>
    rw [hpower] at hvalue
    simp only [hvalue, decide_eq_true_eq, Prod.mk.injEq, Option.some.injEq, and_true]
    split <;> omega

def signed (negative : Bool) (cs : List Char) : List Char :=
  if negative then '-' :: cs else cs

theorem readLiteral_signed (negative : Bool) (hwhole : IsWhole whole) (htail : NoDigit tail)
    (hfraction : readFraction tail = (fraction, tail')) (hexponent : readExponent tail' = (exponent, rest)) :
    readLiteral (signed negative (whole ++ tail))
      =
    some (⟨negative, whole, fraction, exponent⟩, rest) := by
  have hread := readWhole_append hwhole htail
  unfold readLiteral
  cases negative with
  | true => simp [signed, hread, hfraction, hexponent]
  | false =>
    cases whole with
    | nil => exact absurd rfl hwhole.ne_nil
    | cons c ds =>
      have hminus : c ≠ '-' := by
        rintro rfl
        exact absurd (hwhole.digits '-' (by simp)) (by decide)
      rw [List.cons_append] at hread
      simp [signed, hminus, hread, hfraction, hexponent]

def Literal.magnitude (l : Literal) : Rat :=
  digitsValue (l.whole ++ l.fraction) * 10 ^ (l.exponent.getD 0 - l.fraction.length)

variable {d : Decimal} {text : List Char} {v : Rat}

/-- A text is read as a literal with a fraction or a power of ten, whatever follows it. -/
def ReadsAs (text : List Char) (v : Rat) : Prop :=
  ∀ (negative : Bool) (rest : List Char), Ends rest →
    ∃ l : Literal, readLiteral (signed negative (text ++ rest)) = some (l, rest) ∧
      l.negative = negative ∧ l.isWhole = false ∧ l.magnitude = v

theorem readsAs_power (hwhole : IsWhole [c]) (hdigits : ∀ c ∈ ds, c.isDigit) (x : Int) :
    ReadsAs (c :: ((if ds = [] then [] else '.' :: ds) ++ 'e' :: (exponentText x).toList))
      (digitsValue (c :: ds) * 10 ^ (x - ds.length)) := by
  intro negative rest hrest
  have hexponent := readExponent_exponentText x hrest.noDigit
  by_cases hnil : ds = []
  . subst hnil
    have htail : NoDigit ('e' :: ((exponentText x).toList ++ rest)) := noDigit_cons rfl
    have hread := readLiteral_signed negative hwhole htail (readFraction_of_head?_ne (by simp))
      hexponent
    exact ⟨_, by simpa using hread, rfl, rfl, rfl⟩
  . have htail : NoDigit ('.' :: (ds ++ 'e' :: ((exponentText x).toList ++ rest))) := noDigit_cons rfl
    have hread := readLiteral_signed negative hwhole htail
      (readFraction_append hdigits hnil (noDigit_cons rfl)) hexponent
    exact ⟨_, by simpa [hnil] using hread, rfl, by simp [Literal.isWhole], rfl⟩

theorem readsAs_point (hwhole : IsWhole whole) (hdigits : ∀ c ∈ ds, c.isDigit) (hne : ds ≠ []) :
    ReadsAs (whole ++ '.' :: ds) (digitsValue (whole ++ ds) * 10 ^ (-(ds.length : Int))) := by
  intro negative rest hrest
  have htail : NoDigit ('.' :: (ds ++ rest)) := noDigit_cons rfl
  have hread := readLiteral_signed negative hwhole htail
    (readFraction_append hdigits hne hrest.noDigit) (readExponent_of_head? hrest.noPower)
  refine ⟨_, by simpa using hread, rfl, by simp [Literal.isWhole, hne], ?_⟩
  simp [Literal.magnitude]

theorem toList_text_power (hlarge : (d.magnitude < leastPositional || leastExponential ≤ d.magnitude) = true)
    (hdigits : Nat.toDigits 10 d.digits = c :: ds) :
    (Decimal.text d).toList =
      c :: ((if ds = [] then [] else '.' :: ds) ++ 'e' :: (exponentText d.magnitude).toList) := by
  unfold Decimal.text
  simp only [hlarge, if_true, Nat.toList_repr, hdigits]
  by_cases hnil : ds = [] <;> simp [hnil]

theorem isWhole_singleton (hdigit : c.isDigit) : IsWhole [c] := by
  refine ⟨by simpa using hdigit, by simp, ?_⟩
  by_cases hzero : c = '0'
  . exact .inl (by rw [hzero])
  . exact .inr (by simpa using hzero)

theorem readsAs_text_power
    (hlarge : (d.magnitude < leastPositional || leastExponential ≤ d.magnitude) = true) :
    ReadsAs (Decimal.text d).toList d.value := by
  have hdigits := (isWhole_toDigits d.digits).digits
  obtain ⟨c, ds, heq⟩ := List.exists_cons_of_ne_nil (isWhole_toDigits d.digits).ne_nil
  have hcount : digitCount d.digits = ds.length + 1 := by
    unfold digitCount
    rw [← String.length_toList, Nat.toList_repr]
    rw [heq]
    rfl
  have hvalue : d.value = digitsValue (c :: ds) * 10 ^ (d.magnitude - ds.length) := by
    rw [← heq]
    rw [digitsValue_toDigits]
    unfold value magnitude
    rw [hcount]
    congr 2
    push_cast
    ring
  rw [toList_text_power hlarge heq]
  rw [hvalue]
  rw [heq] at hdigits
  exact readsAs_power (isWhole_singleton (hdigits c (by simp)))
    (fun c hc => hdigits c (by simp [hc])) d.magnitude

theorem isWhole_append (hpos : 0 < n) (hdigits : ∀ c ∈ ds, c.isDigit) :
    IsWhole (Nat.toDigits 10 n ++ ds) := by
  obtain ⟨hdigits', hne, -⟩ := isWhole_toDigits n
  refine ⟨?_, by simp [hne], .inr ?_⟩
  . intro c hc
    rcases List.mem_append.1 hc with hc | hc
    . exact hdigits' c hc
    . exact hdigits c hc
  . rw [List.head?_append_of_ne_nil _ hne]
    exact head?_toDigits hpos

theorem readsAs_text_whole (hpos : 0 < d.digits) (hexponent : 0 ≤ d.exponent)
    (hsmall : ¬(d.magnitude < leastPositional || leastExponential ≤ d.magnitude) = true) :
    ReadsAs (Decimal.text d).toList d.value := by
  obtain ⟨k, hk⟩ := Int.eq_ofNat_of_zero_le hexponent
  have htext : (Decimal.text d).toList
      = (Nat.toDigits 10 d.digits ++ List.replicate k '0') ++ '.' :: ['0'] := by
    unfold Decimal.text
    simp [hsmall, hk, Nat.toList_repr]
  have hvalue : d.value
      = digitsValue ((Nat.toDigits 10 d.digits ++ List.replicate k '0') ++ ['0']) *
          10 ^ (-(['0'].length : Int)) := by
    have hzero : digitsValue ['0'] = 0 := rfl
    unfold value
    simp only [digitsValue_append, digitsValue_toDigits, digitsValue_zeros, hzero, List.length_replicate,
      List.length_singleton, hk]
    push_cast
    rw [zpow_natCast]
    ring
  rw [htext, hvalue]
  exact readsAs_point (isWhole_append hpos (isDigit_zeros k)) (by simp) (by simp)

def filled (places n : Nat) : List Char :=
  List.replicate (places - (Nat.toDigits 10 n).length) '0' ++ Nat.toDigits 10 n

theorem isDigit_filled (places n : Nat) : ∀ c ∈ filled places n, c.isDigit := by
  intro c hc
  rcases List.mem_append.1 hc with hc | hc
  . exact isDigit_zeros _ c hc
  . exact (isWhole_toDigits n).digits c hc

theorem digitsValue_filled (places n : Nat) : digitsValue (filled places n) = n := by
  unfold filled
  rw [digitsValue_append]
  simp

theorem length_filled {places : Nat} (hpos : 0 < places) (h : n < 10 ^ places) :
    (filled places n).length = places := by
  have hle := (Nat.length_toDigits_le_iff (by norm_num) hpos).2 h
  unfold filled
  rw [List.length_append, List.length_replicate]
  omega

theorem toList_pointed {places : Nat} (hpos : 0 < places) :
    (pointed n places).toList
      =
    Nat.toDigits 10 (n / 10 ^ places) ++ '.' :: filled places (n % 10 ^ places) := by
  unfold pointed filled
  simp [hpos.ne', Nat.toList_repr]

theorem readsAs_text_point (hexponent : d.exponent < 0)
    (hsmall : ¬(d.magnitude < leastPositional || leastExponential ≤ d.magnitude) = true) :
    ReadsAs (Decimal.text d).toList d.value := by
  obtain ⟨k, hk⟩ : ∃ k : Nat, d.exponent = -(k : Int) := ⟨(-d.exponent).toNat, by omega⟩
  have hpos : 0 < k := by omega
  have htext : Decimal.text d = pointed d.digits k := by
    unfold Decimal.text
    simp only [hsmall, hk]
    rw [if_neg (by simp), if_neg (by omega)]
    simp
  have hlength : (filled k (d.digits % 10 ^ k)).length = k :=
    length_filled hpos (Nat.mod_lt _ (by positivity))
  have hne : filled k (d.digits % 10 ^ k) ≠ [] := by
    rw [← List.length_pos_iff]
    omega
  have hread := readsAs_point (isWhole_toDigits (d.digits / 10 ^ k)) (isDigit_filled k _) hne
  rw [hlength] at hread
  rw [digitsValue_append, digitsValue_toDigits, digitsValue_filled, hlength] at hread
  rw [Nat.div_add_mod] at hread
  rw [htext]
  rw [toList_pointed hpos]
  rw [value, hk]
  exact hread

theorem readsAs_text (hpos : 0 < d.digits) : ReadsAs (Decimal.text d).toList d.value := by
  by_cases hlarge : (d.magnitude < leastPositional || leastExponential ≤ d.magnitude) = true
  . exact readsAs_text_power hlarge
  . by_cases hexponent : 0 ≤ d.exponent
    . exact readsAs_text_whole hpos hexponent hlarge
    . exact readsAs_text_point (by omega) hlarge

open Binary in
theorem toFloat_eq {m : Nat} {e : Int} (l : Literal) (hc : Canonical m e)
    (hr : Rounds m e l.magnitude) :
    l.toFloat = if l.negative then -double hc else double hc := by
  have hpos : 0 < digitsValue (l.whole ++ l.fraction) := by
    have hvalue := hr.pos hc.pos
    by_contra hzero
    have hzero : digitsValue (l.whole ++ l.fraction) = 0 := by omega
    simp [Literal.magnitude, hzero] at hvalue
  unfold Literal.toFloat
  simp only [ofScientific_eq hc hpos hr]

def zeroLiteral (negative : Bool) : Literal :=
  ⟨negative, ['0'], ['0'], none⟩

open Float.Model (UnpackedFloat)
open Float.Model.UnpackedFloat

theorem toModel_zeroLiteral (sign : Sign) :
    (zeroLiteral (sign == .negative)).toFloat.toModel = .pack (.zero sign) := by
  cases sign <;> decide +kernel

theorem eq_of_unpack {x y : Float} {u : UnpackedFloat} (hx : x.toModel.unpack = u)
    (hy : y.toModel = .pack u) : y = x := by
  have hmodel : y.toModel = x.toModel := by
    rw [hy, ← hx]
    exact Binary.pack_unpack x.toModel
  cases x
  cases y
  exact congrArg Float.ofModel hmodel

theorem toModel_signed_double {m : Nat} {e : Int} (hc : Binary.Canonical m e) (sign : Sign) :
    (if (sign == .negative) = true then -Binary.double hc else Binary.double hc).toModel
      =
    .pack (.finite sign m e hc.pos) := by
  cases sign with
  | negative =>
    change Float.Model.pack (UnpackedFloat.neg (Float.Model.pack _).unpack) = _
    rw [Binary.unpack_pack hc .positive]
    rfl
  | positive => rfl

theorem toList_signed (negative : Bool) (text : String) :
    ((if negative then "-" else "") ++ text).toList = signed negative text.toList := by
  cases negative <;> simp [signed]

theorem signed_append (negative : Bool) (cs rest : List Char) :
    signed negative cs ++ rest = signed negative (cs ++ rest) := by
  cases negative <;> rfl

theorem toList_shown_zero {x : Float} {sign : Sign} (h : x.toModel.unpack = .zero sign) :
    (shown x).toList = signed (sign == .negative) ['0', '.', '0'] := by
  have hview : Binary.view x = .finite ⟨sign == .negative, 0, 0⟩ := by
    unfold Binary.view
    rw [h]
  unfold shown
  rw [hview]
  exact toList_signed _ "0.0"

theorem toList_shown_finite {x : Float} {sign : Sign} {m : Nat} {e : Int} {hpos : 0 < m}
    (h : x.toModel.unpack = .finite sign m e hpos) :
    (shown x).toList = signed (sign == .negative) (Decimal.text (shortest m e)).toList := by
  have hview : Binary.view x = .finite ⟨sign == .negative, m, e⟩ := by
    unfold Binary.view
    rw [h]
  unfold shown
  rw [hview]
  simp only [hpos.ne', if_false]
  exact toList_signed _ _

theorem readLiteral_shown {x : Float} {b : Binary} (hview : Binary.view x = .finite b)
    (hrest : Ends rest) :
    ∃ l : Literal, readLiteral ((shown x).toList ++ rest) = some (l, rest) ∧ l.isWhole = false ∧
      l.toFloat = x := by
  unfold Binary.view at hview
  split at hview
  . cases hview
  . cases hview
  . next sign hunpack =>
    have hzero : IsWhole ['0'] := isWhole_singleton rfl
    have htail : NoDigit ('.' :: (['0'] ++ rest)) := noDigit_cons rfl
    have hread := readLiteral_signed (sign == .negative) hzero htail
      (readFraction_append hzero.digits hzero.ne_nil hrest.noDigit) (readExponent_of_head? hrest.noPower)
    refine ⟨zeroLiteral (sign == .negative), ?_, rfl, eq_of_unpack hunpack (toModel_zeroLiteral sign)⟩
    rw [toList_shown_zero hunpack]
    rw [signed_append]
    exact hread
  . next sign m e hpos hunpack =>
    have hc := Binary.canonical_of_unpack hunpack
    obtain ⟨l, hread, hnegative, hwhole, hmagnitude⟩ :=
      readsAs_text (digits_shortest_pos hc) (sign == .negative) rest hrest
    refine ⟨l, ?_, hwhole, ?_⟩
    . rw [toList_shown_finite hunpack]
      rw [signed_append]
      exact hread
    . apply eq_of_unpack hunpack
      rw [toFloat_eq l hc (hmagnitude ▸ rounds_shortest hc)]
      rw [hnegative]
      exact toModel_signed_double hc sign

end Decimal
end TurtleCurves
