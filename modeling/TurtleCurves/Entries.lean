/-!
This module contains lists of entries with distinct keys that remember the order in which the keys first
came in. Putting an entry under a known key replaces its item and leaves its place.
-/

namespace TurtleCurves

/-- Items under keys, in the order of the keys' first appearance. -/
abbrev Entries (κ β : Type) := List (κ × β)

namespace Entries

variable {κ β : Type} [DecidableEq κ]

def get? (entries : Entries κ β) (key : κ) : Option β :=
  match entries with
  | [] => none
  | (other, item) :: rest => if other = key then some item else get? rest key

/-- Puts an item under a key: in place of the old one, or at the end. -/
def put (entries : Entries κ β) (key : κ) (item : β) : Entries κ β :=
  match entries with
  | [] => [(key, item)]
  | (other, old) :: rest => if other = key then (key, item) :: rest else (other, old) :: put rest key item

def keys (entries : Entries κ β) : List κ :=
  entries.map Prod.fst

/-- Puts entries one after the other; a repeated key keeps its place and its last item. -/
def ofList (entries : List (κ × β)) : Entries κ β :=
  entries.foldl (fun collected (key, item) => put collected key item) []

theorem nodup_eraseDups (keys : List κ) : keys.eraseDups.Nodup := by
  match keys with
  | [] => simp
  | first :: rest =>
    rw [List.eraseDups_cons, List.nodup_cons]
    constructor
    . simp [List.mem_eraseDups]
    . apply nodup_eraseDups
termination_by keys.length
decreasing_by
  have := List.length_filter_le (fun key => !key == first) rest
  simp only [List.length_cons]
  omega

theorem eraseDups_concat (keys : List κ) (key : κ) :
    (keys ++ [key]).eraseDups = if key ∈ keys then keys.eraseDups else keys.eraseDups ++ [key] := by
  rw [List.eraseDups_append]
  by_cases h : key ∈ keys <;> simp [List.removeAll, List.eraseDups_cons, h]

@[simp]
theorem get?_nil (key : κ) : get? ([] : Entries κ β) key = none := rfl

theorem get?_put_self (entries : Entries κ β) (key : κ) (item : β) :
    get? (put entries key item) key = some item := by
  induction entries with
  | nil => simp [put, get?]
  | cons entry rest ih =>
    obtain ⟨other, old⟩ := entry
    by_cases h : other = key <;> simp [put, get?, h, ih]

theorem get?_put_of_ne (entries : Entries κ β) {key other : κ} (item : β) (h : other ≠ key) :
    get? (put entries key item) other = get? entries other := by
  induction entries with
  | nil => simp [put, get?, h.symm]
  | cons entry rest ih =>
    obtain ⟨first, old⟩ := entry
    by_cases hk : first = key
    . subst hk
      simp [put, get?, h.symm]
    . simp only [put, hk, if_false, get?, ih]

theorem keys_put (entries : Entries κ β) (key : κ) (item : β) :
    keys (put entries key item) =
      if key ∈ keys entries then keys entries else keys entries ++ [key] := by
  induction entries with
  | nil => simp [put, keys]
  | cons entry rest ih =>
    obtain ⟨other, old⟩ := entry
    by_cases h : other = key
    . simp [put, keys, h]
    . have h' : key ≠ other := fun e => h e.symm
      simp only [keys] at ih
      simp only [put, h, if_false, keys, List.map_cons, ih, List.mem_cons, h', false_or]
      split <;> simp_all

theorem get?_eq_none_iff (entries : Entries κ β) (key : κ) :
    get? entries key = none ↔ key ∉ keys entries := by
  induction entries with
  | nil => simp [keys]
  | cons entry rest ih =>
    obtain ⟨other, item⟩ := entry
    by_cases h : other = key
    . simp [get?, keys, h]
    . have h' : key ≠ other := fun e => h e.symm
      simpa [get?, keys, h, h'] using ih

theorem mem_of_get?_eq_some {entries : Entries κ β} {key : κ} {item : β}
    (h : get? entries key = some item) : (key, item) ∈ entries := by
  induction entries with
  | nil => simp at h
  | cons entry rest ih =>
    obtain ⟨other, old⟩ := entry
    by_cases hk : other = key
    . simp only [get?, hk, if_true, Option.some.injEq] at h
      simp [hk, h]
    . simp only [get?, hk, if_false] at h
      simp [ih h]

end Entries
end TurtleCurves
