import Mathlib.Data.List.Forall2
import TurtleCurves.Proofs.Text.Integer
import TurtleCurves.Settings.Environment

/-!
This module contains what the text of an environment variable stands for. How a text is read depends on the
sort of the usual value of its field: one of a few words sets a flag and any other text clears it, a whole
number is in the usual notation, and a color is a row of whole numbers.
-/

namespace TurtleCurves
namespace Settings
namespace Environment

variable {field : Field} {text : String} {value : Value} {channels : List Int}

/-- A text sets a flag if it is one of four words, whatever their case and the blanks around them. -/
def SetsFlag (text : String) : Prop :=
  ∃ word, Text.Stripped Text.isBlank text.toList word ∧
    Text.lower (String.ofList word) ∈ ["1", "true", "yes", "on"]

theorem readFlag_eq_true_iff : readFlag text = true ↔ SetsFlag text := by
  unfold readFlag SetsFlag
  simp only [← Text.strip_eq_iff]
  simp [flagWords]

/-- A text is a row of whole numbers, with commas between them. -/
def IsRow (text : String) (channels : List Int) : Prop :=
  ∃ parts : List String, parts ≠ [] ∧ (∀ part ∈ parts, ',' ∉ part.toList) ∧
    text = ",".intercalate parts ∧ List.Forall₂ Text.Denotes parts channels

theorem not_mem_of_mem_splitOn {cs : List Char} {c : Char} : ∀ part ∈ cs.splitOn c, c ∉ part := by
  induction cs with
  | nil => simp
  | cons first cs ih =>
    rw [List.splitOn_cons_eq_if_modifyHead]
    split
    . rw [List.forall_mem_cons]
      exact ⟨List.not_mem_nil, ih⟩
    . next hfirst =>
      obtain ⟨head, tail, hparts⟩ := List.exists_cons_of_ne_nil (List.splitOn_ne_nil c cs)
      rw [hparts, List.forall_mem_cons] at ih
      rw [hparts, List.modifyHead_cons, List.forall_mem_cons]
      refine ⟨?_, ih.2⟩
      rw [List.mem_cons, not_or]
      exact ⟨fun h => hfirst (beq_iff_eq.2 h.symm), ih.1⟩

theorem parts_eq_iff {ps : List String} :
    parts text = ps ↔ ps ≠ [] ∧ (∀ part ∈ ps, ',' ∉ part.toList) ∧ text = ",".intercalate ps := by
  have hcomma : ",".toList = [','] := rfl
  constructor
  . rintro rfl
    refine ⟨by simp [parts, List.splitOn_ne_nil], ?_, ?_⟩
    . intro part hpart
      obtain ⟨cs, hcs, rfl⟩ := List.mem_map.1 hpart
      rw [String.toList_ofList]
      exact not_mem_of_mem_splitOn cs hcs
    . rw [← String.toList_inj, String.toList_intercalate, hcomma, parts, List.map_map]
      simp [Function.comp_def, List.intercalate_splitOn]
  . rintro ⟨hne, hparts, rfl⟩
    unfold parts
    rw [String.toList_intercalate, hcomma, List.splitOn_intercalate]
    . simp [Function.comp_def]
    . simpa using hparts
    . simpa using hne

theorem mapM_integer?_eq_some_iff {ps : List String} :
    ps.mapM Text.integer? = some channels ↔ List.Forall₂ Text.Denotes ps channels := by
  induction ps generalizing channels with
  | nil => simp [eq_comm]
  | cons part ps ih =>
    rw [List.mapM_cons, List.forall₂_cons_left_iff]
    simp only [Option.bind_eq_bind, Option.bind_eq_some_iff, Text.integer?_eq_some_iff, ih]
    constructor
    . rintro ⟨n, hn, rest, hrest, ⟨⟩⟩
      exact ⟨n, rest, hn, hrest, rfl⟩
    . rintro ⟨n, rest, hn, hrest, rfl⟩
      exact ⟨n, hn, rest, hrest, rfl⟩

theorem isRow_iff : IsRow text channels ↔ (parts text).mapM Text.integer? = some channels := by
  unfold IsRow
  constructor
  . rintro ⟨ps, hne, hcommas, htext, hchannels⟩
    rw [parts_eq_iff.2 ⟨hne, hcommas, htext⟩]
    exact mapM_integer?_eq_some_iff.2 hchannels
  . intro h
    obtain ⟨hne, hcommas, htext⟩ := parts_eq_iff.1 (rfl : parts text = parts text)
    exact ⟨parts text, hne, hcommas, htext, mapM_integer?_eq_some_iff.1 h⟩

/-- What a text stands for as the variable of a field. -/
inductive Means (field : Field) (text : String) : Value → Prop
  | flag {usual b : Bool} (husual : ({} : Settings).get field = .bool usual)
      (hflag : b = true ↔ SetsFlag text) : Means field text (.bool b)
  | whole {usual n : Int} (husual : ({} : Settings).get field = .int usual)
      (hwhole : Text.Denotes text n) : Means field text (.int n)
  | color {usual : List Value} {channels : List Int} (husual : ({} : Settings).get field = .list usual)
      (hrow : IsRow text channels) : Means field text (.list (channels.map .int))

theorem reading_eq_flag_iff : field.reading = .flag ↔ ∃ b, ({} : Settings).get field = .bool b := by
  cases field <;> simp [Field.reading, get, Color.toValue]

theorem reading_eq_whole_iff : field.reading = .whole ↔ ∃ n, ({} : Settings).get field = .int n := by
  cases field <;> simp [Field.reading, get, Color.toValue]

theorem reading_eq_color_iff : field.reading = .color ↔ ∃ vs, ({} : Settings).get field = .list vs := by
  cases field <;> simp [Field.reading, get, Color.toValue]

/-- A variable is read as what it stands for, and as nothing if it stands for nothing. -/
theorem readValue?_eq_some_iff : readValue? field text = some value ↔ Means field text value := by
  unfold readValue?
  constructor
  . intro h
    split at h
    . next hreading =>
      obtain ⟨usual, husual⟩ := reading_eq_flag_iff.1 hreading
      cases h
      exact .flag husual readFlag_eq_true_iff
    . next hreading =>
      obtain ⟨usual, husual⟩ := reading_eq_whole_iff.1 hreading
      obtain ⟨n, hn, rfl⟩ := Option.map_eq_some_iff.1 h
      exact .whole husual (Text.integer?_eq_some_iff.1 hn)
    . next hreading =>
      obtain ⟨usual, husual⟩ := reading_eq_color_iff.1 hreading
      obtain ⟨channels, hchannels, rfl⟩ := Option.map_eq_some_iff.1 h
      exact .color husual (isRow_iff.2 hchannels)
  . intro h
    cases h with
    | flag husual hflag =>
      rw [reading_eq_flag_iff.2 ⟨_, husual⟩]
      rw [← readFlag_eq_true_iff, ← Bool.eq_iff_iff] at hflag
      rw [hflag]
    | whole husual hwhole =>
      rw [reading_eq_whole_iff.2 ⟨_, husual⟩]
      exact Option.map_eq_some_iff.2 ⟨_, Text.integer?_eq_some_iff.2 hwhole, rfl⟩
    | color husual hrow =>
      rw [reading_eq_color_iff.2 ⟨_, husual⟩]
      exact Option.map_eq_some_iff.2 ⟨_, isRow_iff.1 hrow, rfl⟩

end Environment
end Settings
end TurtleCurves
