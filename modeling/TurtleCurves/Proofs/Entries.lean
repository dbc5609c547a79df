import Mathlib.Data.List.Induction
import Mathlib.Data.List.Nodup
import TurtleCurves.Entries

/-!
This module contains lemmas about entries that are put one after the other: the keys stand in the order of
their first appearance, and each has the item that it was given last.
-/

namespace TurtleCurves
namespace Entries

variable {κ β : Type} [DecidableEq κ] {entries : Entries κ β} {key : κ} {item : β}

theorem keys_put_nodup (h : (keys entries).Nodup) (key : κ) (item : β) :
    (keys (put entries key item)).Nodup := by
  rw [keys_put]
  split
  . exact h
  . next hkey =>
    rw [← List.concat_eq_append]
    exact (List.nodup_concat _ _).2 ⟨hkey, h⟩

theorem get?_of_mem (hkeys : (keys entries).Nodup) (h : (key, item) ∈ entries) :
    get? entries key = some item := by
  induction entries with
  | nil => cases h
  | cons entry rest ih =>
    obtain ⟨other, old⟩ := entry
    simp only [keys, List.map_cons, List.nodup_cons] at hkeys
    rw [get?]
    rcases List.mem_cons.1 h with heq | hrest
    . cases heq
      rw [if_pos rfl]
    . have hother : other ≠ key := by
        rintro rfl
        exact hkeys.1 (List.mem_map_of_mem hrest)
      rw [if_neg hother]
      exact ih hkeys.2 hrest

theorem ofList_concat (entries : List (κ × β)) (key : κ) (item : β) :
    ofList (entries ++ [(key, item)]) = put (ofList entries) key item := by
  simp [ofList]

theorem keys_ofList (entries : List (κ × β)) :
    keys (ofList entries) = (entries.map Prod.fst).eraseDups := by
  induction entries using List.reverseRecOn with
  | nil => rfl
  | append_singleton entries entry ih =>
    rw [ofList_concat, keys_put, ih]
    rw [List.map_append, List.map_singleton, eraseDups_concat]
    simp only [List.mem_eraseDups]

theorem nodup_keys_ofList (entries : List (κ × β)) : (keys (ofList entries)).Nodup := by
  rw [keys_ofList]
  apply nodup_eraseDups

theorem get?_ofList (entries : List (κ × β)) (key : κ) :
    get? (ofList entries) key = entries.reverse.lookup key := by
  induction entries using List.reverseRecOn with
  | nil => rfl
  | append_singleton entries entry ih =>
    obtain ⟨last, item⟩ := entry
    rw [ofList_concat]
    rw [List.reverse_append, List.reverse_singleton, List.singleton_append, List.lookup_cons]
    by_cases hkey : key = last
    . subst hkey
      rw [get?_put_self, beq_self_eq_true]
    . rw [get?_put_of_ne _ _ hkey, beq_false_of_ne hkey]
      exact ih

end Entries
end TurtleCurves
