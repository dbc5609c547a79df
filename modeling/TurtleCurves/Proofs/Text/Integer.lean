import Mathlib.Data.List.TakeWhile
import TurtleCurves.Text.Integer

/-!
This module contains which texts are whole numbers. Between blanks there is a sign, if any, and then digits
with single underscores between them.
-/

namespace TurtleCurves
namespace Text

variable {blank : Char → Bool} {cs core : List Char} {ds : List Nat} {n : Nat}

/-- What is left of a text without the blanks on both sides. -/
inductive Stripped (blank : Char → Bool) : List Char → List Char → Prop
  | intro {front core back : List Char} (hfront : ∀ c ∈ front, blank c) (hback : ∀ c ∈ back, blank c)
      (hhead : ∀ c ∈ core.head?, ¬ blank c) (hlast : ∀ c ∈ core.getLast?, ¬ blank c) :
      Stripped blank (front ++ core ++ back) core

theorem dropWhile_append_of_head? {front rest : List Char} (hfront : ∀ c ∈ front, blank c)
    (hrest : ∀ c ∈ rest.head?, ¬ blank c) : (front ++ rest).dropWhile blank = rest := by
  rw [List.dropWhile_append_of_pos hfront]
  cases rest with
  | nil => rfl
  | cons c rest => rw [List.dropWhile_cons_of_neg (hrest c rfl)]

theorem not_blank_of_head?_dropWhile : ∀ c ∈ (cs.dropWhile blank).head?, ¬ blank c := by
  intro c hc
  have h := List.head?_dropWhile_not blank cs
  rw [Option.mem_def] at hc
  rw [hc] at h
  simpa using h

theorem stripped_strip (blank : Char → Bool) (cs : List Char) : Stripped blank cs (strip blank cs) := by
  let middle := cs.dropWhile blank
  let back := (middle.reverse.takeWhile blank).reverse
  have hmiddle : middle = strip blank cs ++ back := by
    unfold strip
    rw [← List.reverse_append, List.takeWhile_append_dropWhile, List.reverse_reverse]
  have hcs : cs = cs.takeWhile blank ++ strip blank cs ++ back := by
    rw [List.append_assoc, ← hmiddle, List.takeWhile_append_dropWhile]
  have hstripped : Stripped blank (cs.takeWhile blank ++ strip blank cs ++ back) (strip blank cs) := by
    constructor
    . intro c hc
      exact List.mem_takeWhile_imp hc
    . intro c hc
      exact List.mem_takeWhile_imp (List.mem_reverse.1 hc)
    . intro c hc
      -- The first character that is left is the first one behind the blanks in front.
      apply @not_blank_of_head?_dropWhile blank cs
      change c ∈ middle.head?
      rw [hmiddle, List.head?_append, Option.mem_def.1 hc]
      rfl
    . intro c hc
      unfold strip at hc
      rw [List.getLast?_reverse] at hc
      exact not_blank_of_head?_dropWhile c hc
  rwa [← hcs] at hstripped

theorem strip_eq_iff : strip blank cs = core ↔ Stripped blank cs core := by
  constructor
  . rintro rfl
    exact stripped_strip blank cs
  . rintro ⟨hfront, hback, hhead, hlast⟩
    next front back =>
    have hleft : (front ++ core ++ back).dropWhile blank = (core ++ back).dropWhile blank := by
      rw [List.append_assoc, List.dropWhile_append_of_pos hfront]
    have hright : (back.reverse ++ core.reverse).dropWhile blank = core.reverse := by
      apply dropWhile_append_of_head?
      . simpa using hback
      . rwa [List.head?_reverse]
    unfold strip
    rw [hleft]
    cases core with
    | nil =>
      rw [List.nil_append, List.dropWhile_eq_nil_iff.2 hback]
      rfl
    | cons c core =>
      rw [List.cons_append, List.dropWhile_cons_of_neg (hhead c rfl)]
      rw [← List.cons_append, List.reverse_append, hright, List.reverse_reverse]

/-- What may follow a digit: more digits, with an underscore in front of each or not. -/
inductive Follows : List Char → List Nat → Prop
  | nil : Follows [] []
  | digit {c : Char} {cs : List Char} {d : Nat} {ds : List Nat} (hdigit : digitValue? c = some d)
      (hrest : Follows cs ds) : Follows (c :: cs) (d :: ds)
  | joined {c : Char} {cs : List Char} {d : Nat} {ds : List Nat} (hdigit : digitValue? c = some d)
      (hrest : Follows cs ds) : Follows ('_' :: c :: cs) (d :: ds)

def valueOf (ds : List Nat) : Nat :=
  ds.foldl (fun n d => 10 * n + d) 0

/-- A magnitude begins with a digit and has no more digits than are read. -/
inductive Magnitude : List Char → Nat → Prop
  | intro {c : Char} {cs : List Char} {d : Nat} {ds : List Nat} (hdigit : digitValue? c = some d)
      (hrest : Follows cs ds) (hlength : (d :: ds).length ≤ maxIntegerDigits) :
      Magnitude (c :: cs) (valueOf (d :: ds))

inductive Signed : List Char → Int → Prop
  | plain {cs : List Char} {n : Nat} (h : Magnitude cs n) : Signed cs n
  | plus {cs : List Char} {n : Nat} (h : Magnitude cs n) : Signed ('+' :: cs) n
  | minus {cs : List Char} {n : Nat} (h : Magnitude cs n) : Signed ('-' :: cs) (-n)

def Denotes (text : String) (n : Int) : Prop :=
  ∃ core, Stripped isPadding text.toList core ∧ Signed core n

theorem digitValue?_underscore : digitValue? '_' = none := by
  decide

def DigitRun.extend (run : DigitRun) (ds : List Nat) : DigitRun :=
  ⟨ds.foldl (fun n d => 10 * n + d) run.value, run.count + ds.length⟩

theorem DigitRun.extend_cons (run : DigitRun) (d : Nat) (ds : List Nat) :
    run.extend (d :: ds) = extend ⟨10 * run.value + d, run.count + 1⟩ ds := by
  simp only [extend, List.foldl_cons, List.length_cons]
  congr 1
  omega

theorem DigitRun.extend_first (d : Nat) (ds : List Nat) :
    extend ⟨d, 1⟩ ds = ⟨valueOf (d :: ds), (d :: ds).length⟩ := by
  simp [extend, valueOf, Nat.add_comm]

theorem digitRun?_eq_some_iff {run result : DigitRun} :
    digitRun? run cs = some result ↔ ∃ ds, Follows cs ds ∧ result = run.extend ds := by
  fun_induction digitRun? run cs with
  | case1 run =>
    rw [Option.some.injEq]
    constructor
    . rintro rfl
      exact ⟨[], .nil, rfl⟩
    . rintro ⟨ds, hfollows, rfl⟩
      cases hfollows
      rfl
  | case2 run =>
    constructor
    . intro h
      cases h
    . rintro ⟨ds, hfollows, -⟩
      cases hfollows with
      | digit hdigit _ =>
        rw [digitValue?_underscore] at hdigit
        cases hdigit
  | case3 run c rest ih =>
    rw [Option.bind_eq_bind, Option.bind_eq_some_iff]
    constructor
    . rintro ⟨d, hdigit, hrest⟩
      obtain ⟨ds, hfollows, rfl⟩ := (ih d).1 hrest
      exact ⟨d :: ds, .joined hdigit hfollows, (run.extend_cons d ds).symm⟩
    . rintro ⟨ds, hfollows, rfl⟩
      cases hfollows with
      | digit hdigit _ =>
        rw [digitValue?_underscore] at hdigit
        cases hdigit
      | joined hdigit hrest =>
        exact ⟨_, hdigit, (ih _).2 ⟨_, hrest, run.extend_cons _ _⟩⟩
  | case4 run c rest hlone hjoined ih =>
    rw [Option.bind_eq_bind, Option.bind_eq_some_iff]
    constructor
    . rintro ⟨d, hdigit, hrest⟩
      obtain ⟨ds, hfollows, rfl⟩ := (ih d).1 hrest
      exact ⟨d :: ds, .digit hdigit hfollows, (run.extend_cons d ds).symm⟩
    . rintro ⟨ds, hfollows, rfl⟩
      cases hfollows with
      | digit hdigit hrest =>
        exact ⟨_, hdigit, (ih _).2 ⟨_, hrest, run.extend_cons _ _⟩⟩
      | joined hdigit hrest => exact absurd rfl (hjoined _ _ rfl)

theorem natural?_eq_some_iff : natural? cs = some n ↔ Magnitude cs n := by
  constructor
  . intro h
    cases cs with
    | nil => cases h
    | cons c rest =>
      unfold natural? at h
      simp only [Option.bind_eq_bind, Option.bind_eq_some_iff, digitRun?_eq_some_iff] at h
      obtain ⟨d, hdigit, _, ⟨ds, hfollows, rfl⟩, h⟩ := h
      rw [DigitRun.extend_first] at h
      rw [Option.ite_none_right_eq_some] at h
      obtain ⟨hcount, ⟨⟩⟩ := h
      exact .intro hdigit hfollows hcount
  . rintro ⟨hdigit, hfollows, hlength⟩
    unfold natural?
    simp only [Option.bind_eq_bind, Option.bind_eq_some_iff, digitRun?_eq_some_iff]
    refine ⟨_, hdigit, _, ⟨_, hfollows, rfl⟩, ?_⟩
    rw [DigitRun.extend_first]
    exact if_pos hlength

theorem Magnitude.digitValue?_ne_none {c : Char} (h : Magnitude (c :: cs) n) : digitValue? c ≠ none := by
  cases h with
  | intro hdigit _ _ =>
    rw [hdigit]
    nofun

/-- A whole number is read from a text exactly if the text is the notation of one. -/
theorem integer?_eq_some_iff {text : String} {n : Int} : integer? text = some n ↔ Denotes text n := by
  have hplus : digitValue? '+' = none := by decide
  have hminus : digitValue? '-' = none := by decide
  have hdenotes : Denotes text n ↔ Signed (strip isPadding text.toList) n := by
    unfold Denotes
    simp only [← strip_eq_iff]
    simp
  rw [hdenotes]
  unfold integer?
  generalize strip isPadding text.toList = core
  split
  . next rest =>
    simp only [Option.map_eq_some_iff, natural?_eq_some_iff]
    constructor
    . rintro ⟨m, hm, rfl⟩
      exact .minus hm
    . intro h
      cases h with
      | plain h => exact absurd hminus h.digitValue?_ne_none
      | minus h => exact ⟨_, h, rfl⟩
  . next rest =>
    simp only [Option.map_eq_some_iff, natural?_eq_some_iff]
    constructor
    . rintro ⟨m, hm, rfl⟩
      exact .plus hm
    . intro h
      cases h with
      | plain h => exact absurd hplus h.digitValue?_ne_none
      | plus h => exact ⟨_, h, rfl⟩
  . next hnot hnot' =>
    simp only [Option.map_eq_some_iff, natural?_eq_some_iff]
    constructor
    . rintro ⟨m, hm, rfl⟩
      exact .plain hm
    . intro h
      cases h with
      | plain h => exact ⟨_, h, rfl⟩
      | plus h => exact absurd rfl (hnot' _)
      | minus h => exact absurd rfl (hnot _)

end Text
end TurtleCurves
