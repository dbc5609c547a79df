import TurtleCurves.Proofs.Entries
import TurtleCurves.Proofs.Fault
import TurtleCurves.Proofs.Json.RoundTrip

/-!
This module contains what the reader makes of a text. Whatever the text, its objects have distinct names
and its whole numbers are not too long, so every value that is read can be written and read again.
-/

namespace TurtleCurves

namespace Decimal

variable {cs rest whole : List Char} {n : Nat}

theorem digitsValue_lt (h : ∀ c ∈ cs, c.isDigit) : digitsValue cs < 10 ^ cs.length := by
  induction cs using List.reverseRecOn with
  | nil => simp [digitsValue]
  | append_singleton cs c ih =>
    have hfront := ih fun d hd => h d (List.mem_append_left _ hd)
    have hdigit := h c (by simp)
    have hnine : '9'.toNat = 57 := rfl
    have hzero : '0'.toNat = 48 := rfl
    rw [Char.isDigit_iff_toNat, hnine, hzero] at hdigit
    have hvalue : digitsValue (cs ++ [c]) = 10 * digitsValue cs + (c.toNat - 48) := by
      simp [digitsValue]
    rw [hvalue]
    rw [List.length_append, List.length_singleton, Nat.pow_succ]
    omega

theorem digitCount_le {k : Nat} (hpos : 0 < k) (h : n < 10 ^ k) : digitCount n ≤ k := by
  unfold digitCount
  rw [← String.length_toList, Nat.toList_repr]
  rw [Nat.length_toDigits_le_iff (by norm_num) hpos]
  exact h

theorem isDigit_of_readWhole (h : readWhole cs = some (whole, rest)) : ∀ c ∈ whole, c.isDigit := by
  unfold readWhole at h
  split at h
  . cases h
    simp
  . split at h
    . cases h
    . next hspan =>
      cases h
      have hwhole : cs.takeWhile Char.isDigit = whole := congrArg Prod.fst hspan
      have hall : (cs.takeWhile Char.isDigit).all Char.isDigit := List.all_takeWhile
      rw [hwhole] at hall
      exact List.all_eq_true.1 hall

theorem isDigit_of_readLiteral {literal : Literal} (h : readLiteral cs = some (literal, rest)) :
    ∀ c ∈ literal.whole, c.isDigit := by
  unfold readLiteral at h
  split at h
  split at h
  . cases h
  . next hwhole =>
    cases h
    exact isDigit_of_readWhole hwhole

end Decimal

theorem Value.areJson_iff {items : List Value} : areJson items ↔ ∀ item ∈ items, item.isJson := by
  induction items with
  | nil => simp [areJson]
  | cons item items ih => rw [areJson, Bool.and_eq_true, ih, List.forall_mem_cons]

namespace Json

theorem isJson_of_readNumber {cs rest : List Char} {v : Value} (h : readNumber cs = .ok (v, rest)) :
    v.isJson := by
  unfold readNumber at h
  split at h
  . cases h
  . next literal rest hliteral =>
    split at h
    . cases h
      rfl
    . split at h
      . cases h
      . next hlength =>
        cases h
        have hdigits := Decimal.isDigit_of_readLiteral hliteral
        have hvalue : literal.toInt.natAbs = Decimal.digitsValue literal.whole := by
          unfold Decimal.Literal.toInt
          simp only
          split <;> omega
        have hlt : literal.toInt.natAbs < 10 ^ Text.maxIntegerDigits := by
          rw [hvalue]
          calc
            Decimal.digitsValue literal.whole < 10 ^ literal.whole.length := Decimal.digitsValue_lt hdigits
            _ ≤ 10 ^ Text.maxIntegerDigits := Nat.pow_le_pow_right (by omega) (by omega)
        simp only [Value.isJson, decide_eq_true_eq]
        exact Decimal.digitCount_le (by decide) hlt

theorem isJson_of_readWord? {cs rest : List Char} {v : Value} (h : readWord? cs = some (v, rest)) :
    v.isJson := by
  unfold readWord? at h
  obtain ⟨⟨word, value⟩, hmem, hword⟩ := List.exists_of_findSome?_eq_some h
  simp only at hword
  split at hword
  . cases hword
    have hwords : ∀ word ∈ words, word.2.isJson := by decide
    exact hwords _ hmem
  . cases hword

theorem haveJson_put {fields : Fields} {v : Value} (h : Value.haveJson fields) (name : String)
    (hv : v.isJson) : Value.haveJson (fields.put name v) := by
  induction fields with
  | nil => simp [Entries.put, Value.haveJson, hv]
  | cons field fields ih =>
    obtain ⟨other, old⟩ := field
    simp only [Value.haveJson, Bool.and_eq_true] at h
    unfold Entries.put
    split
    . simp [Value.haveJson, hv, h.2]
    . simp [Value.haveJson, h.1, ih h.2]

mutual

theorem isJson_of_readValue {v : Value} {rest : List Char} (bound : Nat) (cs : List Char)
    (h : readValue bound cs = .ok (v, rest)) : v.isJson := by
  match bound with
  | 0 =>
    rw [readValue] at h
    cases h
  | bound + 1 =>
    unfold readValue at h
    split at h
    . rw [Result.bind_eq_ok] at h
      obtain ⟨_, -, h⟩ := h
      cases h
      rfl
    . split at h
      . cases h
        rfl
      . exact isJson_of_readItems bound _ (by simp) h
    . split at h
      . cases h
        rfl
      . exact isJson_of_readFields bound _ rfl (by simp [Entries.keys]) h
    . split at h
      . next hword =>
        cases h
        exact isJson_of_readWord? hword
      . exact isJson_of_readNumber h

theorem isJson_of_readItems {seen : List Value} {v : Value} {rest : List Char} (bound : Nat)
    (cs : List Char) (hseen : ∀ item ∈ seen, item.isJson) (h : readItems bound seen cs = .ok (v, rest)) :
    v.isJson := by
  match bound with
  | 0 =>
    rw [readItems] at h
    cases h
  | bound + 1 =>
    unfold readItems at h
    rw [Result.bind_eq_ok] at h
    obtain ⟨⟨item, after⟩, hitem, h⟩ := h
    have hitems : ∀ item' ∈ item :: seen, item'.isJson :=
      List.forall_mem_cons.2 ⟨isJson_of_readValue bound _ hitem, hseen⟩
    simp only at h
    split at h
    . exact isJson_of_readItems bound _ hitems h
    . cases h
      rw [Value.isJson, Value.areJson_iff]
      intro item' hmem
      exact hitems item' (List.mem_reverse.1 hmem)
    . cases h

theorem isJson_of_readFields {fields : Fields} {v : Value} {rest : List Char} (bound : Nat)
    (cs : List Char) (hfields : Value.haveJson fields) (hnames : fields.keys.Nodup)
    (h : readFields bound fields cs = .ok (v, rest)) : v.isJson := by
  match bound with
  | 0 =>
    rw [readFields] at h
    cases h
  | bound + 1 =>
    unfold readFields at h
    split at h
    . rw [Result.bind_eq_ok] at h
      obtain ⟨⟨name, after⟩, -, h⟩ := h
      simp only at h
      split at h
      . rw [Result.bind_eq_ok] at h
        obtain ⟨⟨value, after⟩, hvalue, h⟩ := h
        have hput := haveJson_put hfields name (isJson_of_readValue bound _ hvalue)
        have hkeys := Entries.keys_put_nodup hnames name value
        simp only at h
        split at h
        . exact isJson_of_readFields bound _ hput hkeys h
        . cases h
          simp [Value.isJson, hput, hkeys]
        . cases h
      . cases h
    . cases h

end

theorem isJson_of_read {text : String} {v : Value} (h : read text = .ok v) : v.isJson := by
  unfold read at h
  rw [Result.bind_eq_ok] at h
  obtain ⟨⟨value, rest⟩, hvalue, h⟩ := h
  simp only at h
  split at h
  . cases h
    exact isJson_of_readValue _ _ hvalue
  . cases h

end Json
end TurtleCurves
