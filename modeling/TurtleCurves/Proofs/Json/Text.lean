import Mathlib.Data.Nat.Basic
import Mathlib.Data.List.Basic
import Mathlib.Tactic.SplitIfs
import TurtleCurves.Json.Reader
import TurtleCurves.Json.Writer

/-!
This module contains the reading of written texts. Each character is written plainly, or as an escape of
one of three sorts, and the reader gets it back from each of them; an escape of one unit only has to
be told from the first half of a pair.
-/

namespace TurtleCurves
namespace Json

variable {c : Char} {n : Nat} {cs rest tail seen : List Char}

def hexDigits (width n : Nat) : List Char :=
  List.replicate (width - (Nat.toDigits 16 n).length) '0' ++ Nat.toDigits 16 n

theorem hexDigits_one (h : n < 16) : hexDigits 1 n = [n.digitChar] := by
  unfold hexDigits
  rw [Nat.toDigits_of_lt_base h]
  rfl

theorem hexDigits_succ (width n : Nat) (hwidth : 0 < width) :
    hexDigits (width + 1) n = hexDigits width (n / 16) ++ [(n % 16).digitChar] := by
  unfold hexDigits
  by_cases hlt : n < 16
  . rw [Nat.toDigits_of_lt_base hlt]
    rw [Nat.div_eq_of_lt hlt, Nat.mod_eq_of_lt hlt]
    rw [Nat.toDigits_zero]
    have hzeros : List.replicate (width - 1) '0' ++ ['0'] = List.replicate width '0' := by
      rw [← List.replicate_succ']
      congr 1
      omega
    simp only [List.length_singleton, Nat.add_sub_cancel]
    rw [hzeros]
  . rw [Nat.toDigits_of_base_le (by omega) (by omega)]
    rw [List.length_append, List.length_singleton]
    rw [Nat.add_sub_add_right]
    rw [List.append_assoc]

theorem hexDigits_four (h : n < 0x10000) :
    hexDigits 4 n =
      [(n / 4096).digitChar, (n / 256 % 16).digitChar, (n / 16 % 16).digitChar, (n % 16).digitChar] := by
  rw [hexDigits_succ 3 n (by omega)]
  rw [hexDigits_succ 2 _ (by omega)]
  rw [hexDigits_succ 1 _ (by omega)]
  rw [hexDigits_one (by omega)]
  simp only [Nat.div_div_eq_div_mul]
  rfl

theorem hexValue?_digitChar (d : Fin 16) : hexValue? (d.val).digitChar = some d.val := by
  revert d
  decide

theorem unit?_digits (h : n < 0x10000) :
    unit? (n / 4096).digitChar (n / 256 % 16).digitChar (n / 16 % 16).digitChar (n % 16).digitChar
      =
    some n := by
  have hvalue {d : Nat} (hd : d < 16) : hexValue? d.digitChar = some d := hexValue?_digitChar ⟨d, hd⟩
  unfold unit?
  rw [hvalue (by omega), hvalue (by omega), hvalue (by omega), hvalue (by omega)]
  simp only [bind, pure, Option.bind_some, Option.some.injEq]
  omega

theorem toList_hex (width n : Nat) : (Text.hex width n).toList = hexDigits width n :=
  String.toList_ofList

theorem toList_unitEscape (h : n < 0x10000) :
    ∃ x y z w, (unitEscape n).toList = ['\\', 'u', x, y, z, w] ∧ unit? x y z w = some n := by
  refine ⟨_, _, _, _, ?_, unit?_digits h⟩
  unfold unitEscape
  rw [String.toList_append, toList_hex, hexDigits_four h]
  rfl

/-- The characters that stand for one character of a text. -/
inductive Escaped (c : Char) : List Char → Prop
  | plain : c ≠ '"' → c ≠ '\\' → 0x20 ≤ c.toNat → Escaped c [c]
  | short {mark : Char} : mark ≠ 'u' → shortEscape? mark = some c → Escaped c ['\\', mark]
  | unit {x y z w : Char} : unit? x y z w = some c.toNat → Escaped c ['\\', 'u', x, y, z, w]
  | pair {x y z w x' y' z' w' : Char} {high low : Nat} :
    unit? x y z w = some high → unit? x' y' z' w' = some low → isHighUnit high → isLowUnit low →
      pairChar high low = c →
      Escaped c ['\\', 'u', x, y, z, w, '\\', 'u', x', y', z', w']

theorem toNat_valid (c : Char) : c.toNat < 0xd800 ∨ (0xdfff < c.toNat ∧ c.toNat < 0x110000) :=
  c.valid

theorem escaped_pair (h : 0x10000 ≤ c.toNat) :
    Escaped c
      (unitEscape (0xd800 + (c.toNat - 0x10000) / 0x400) ++
        unitEscape (0xdc00 + (c.toNat - 0x10000) % 0x400)).toList := by
  have hvalid := toNat_valid c
  obtain ⟨x, y, z, w, hhigh, hhigh'⟩ :=
    toList_unitEscape (n := 0xd800 + (c.toNat - 0x10000) / 0x400) (by omega)
  obtain ⟨x', y', z', w', hlow, hlow'⟩ :=
    toList_unitEscape (n := 0xdc00 + (c.toNat - 0x10000) % 0x400) (by omega)
  rw [String.toList_append, hhigh, hlow]
  refine .pair hhigh' hlow' ?_ ?_ ?_
  . simp only [isHighUnit, Bool.and_eq_true, decide_eq_true_eq]
    omega
  . simp only [isLowUnit, Bool.and_eq_true, decide_eq_true_eq]
    omega
  . have hcode : 0x10000 + (0xd800 + (c.toNat - 0x10000) / 0x400 - 0xd800) * 0x400
        + (0xdc00 + (c.toNat - 0x10000) % 0x400 - 0xdc00) = c.toNat := by
      omega
    unfold pairChar
    rw [hcode]
    exact Char.ofNat_toNat c

theorem escaped (c : Char) : Escaped c (escape c).toList := by
  unfold escape
  split_ifs with hquote hslash hline hreturn htab hback hfeed hplain hunit
  . exact .short (by decide) (by rw [hquote]; rfl)
  . exact .short (by decide) (by rw [hslash]; rfl)
  . exact .short (by decide) (by rw [hline]; rfl)
  . exact .short (by decide) (by rw [hreturn]; rfl)
  . exact .short (by decide) (by rw [htab]; rfl)
  . exact .short (by decide) (by rw [hback]; rfl)
  . exact .short (by decide) (by rw [hfeed]; rfl)
  . simp only [Bool.and_eq_true, decide_eq_true_eq] at hplain
    simpa using Escaped.plain hquote hslash hplain.1
  . obtain ⟨x, y, z, w, hchars, hvalue⟩ := toList_unitEscape hunit
    rw [hchars]
    exact .unit hvalue
  . exact escaped_pair (by omega)

/-- A text in which an escape of a unit at the front has its four digits. -/
def Continues (tail : List Char) : Prop :=
  ∀ x y z w rest, tail = '\\' :: 'u' :: x :: y :: z :: w :: rest → (unit? x y z w).isSome

theorem continues_quote : Continues ('"' :: rest) := by
  intro x y z w rest heq
  cases heq

theorem Escaped.continues (h : Escaped c cs) : Continues (cs ++ tail) := by
  intro x y z w rest heq
  cases h with
  | plain hquote hslash hprint =>
    cases heq
    exact absurd rfl hslash
  | short hmark hshort =>
    cases heq
    exact absurd rfl hmark
  | unit hunit =>
    cases heq
    rw [hunit]
    rfl
  | pair hhigh hlow =>
    cases heq
    rw [hhigh]
    rfl

theorem unitChar_toNat (c : Char) :
    isHighUnit c.toNat = false ∧ unitChar c.toNat = c := by
  have hvalid := toNat_valid c
  have hhigh : isHighUnit c.toNat = false := by
    simp only [isHighUnit, Bool.and_eq_false_iff, decide_eq_false_iff_not]
    omega
  have hlow : isLowUnit c.toNat = false := by
    simp only [isLowUnit, Bool.and_eq_false_iff, decide_eq_false_iff_not]
    omega
  refine ⟨hhigh, ?_⟩
  unfold unitChar
  rw [hhigh, hlow]
  exact Char.ofNat_toNat c

theorem readText_unit {x y z w : Char} (hunit : unit? x y z w = some c.toNat) (htail : Continues tail) :
    readText seen ('\\' :: 'u' :: x :: y :: z :: w :: tail) = readText (c :: seen) tail := by
  obtain ⟨hhigh, hchar⟩ := unitChar_toNat c
  by_cases hpair : ∃ x' y' z' w' rest, tail = '\\' :: 'u' :: x' :: y' :: z' :: w' :: rest
  . obtain ⟨x', y', z', w', rest, rfl⟩ := hpair
    obtain ⟨second, hsecond⟩ := Option.isSome_iff_exists.1 (htail x' y' z' w' rest rfl)
    rw [readText]
    simp only [hunit, hsecond, hhigh, hchar, Bool.false_and, Bool.false_eq_true, if_false]
  . rw [readText]
    . simp only [hunit, hchar]
    . intro x' y' z' w' rest heq
      exact hpair ⟨x', y', z', w', rest, heq⟩

theorem Escaped.readText (h : Escaped c cs) (htail : Continues tail) :
    readText seen (cs ++ tail) = readText (c :: seen) tail := by
  cases h with
  | plain hquote hslash hprint =>
    rw [List.singleton_append]
    rw [Json.readText]
    . rw [if_neg (by omega)]
    all_goals simp [hquote, hslash]
  | short hmark hshort =>
    rw [List.cons_append, List.singleton_append]
    rw [Json.readText]
    . rw [hshort]
    all_goals simp [hmark]
  | unit hunit => exact readText_unit hunit htail
  | pair hhigh hlow hfirst hsecond hchar =>
    simp only [List.cons_append, List.nil_append]
    rw [Json.readText]
    simp only [hhigh, hlow, hfirst, hsecond, hchar, Bool.and_self, if_true]

def escapes (cs : List Char) : List Char :=
  cs.flatMap fun c => (escape c).toList

theorem continues_escapes (cs : List Char) : Continues (escapes cs ++ '"' :: rest) := by
  cases cs with
  | nil => exact continues_quote
  | cons c cs =>
    unfold escapes
    rw [List.flatMap_cons, List.append_assoc]
    exact (escaped c).continues

theorem readText_escapes (cs : List Char) :
    readText seen (escapes cs ++ '"' :: rest) = .ok (String.ofList (seen.reverse ++ cs), rest) := by
  induction cs generalizing seen with
  | nil => simp [escapes, readText]
  | cons c cs ih =>
    have hcons : escapes (c :: cs) = (escape c).toList ++ escapes cs := List.flatMap_cons
    rw [hcons, List.append_assoc]
    rw [(escaped c).readText (continues_escapes cs)]
    rw [ih]
    simp

theorem toList_writeText (s : String) : (writeText s).toList = '"' :: (escapes s.toList ++ ['"']) := by
  have hfold (cs : List Char) (out : String) :
      (cs.foldl (fun out c => out ++ escape c) out).toList = out.toList ++ escapes cs := by
    induction cs generalizing out with
    | nil => simp [escapes]
    | cons c cs ih =>
      rw [List.foldl_cons, ih]
      simp [escapes]
  unfold writeText
  rw [String.toList_push, hfold]
  rfl

theorem readText_writeText (s : String) (rest : List Char) :
    ∃ body, (writeText s).toList ++ rest = '"' :: body ∧ readText [] body = .ok (s, rest) := by
  refine ⟨escapes s.toList ++ '"' :: rest, ?_, ?_⟩
  . rw [toList_writeText]
    simp
  . rw [readText_escapes]
    simp

end Json
end TurtleCurves
