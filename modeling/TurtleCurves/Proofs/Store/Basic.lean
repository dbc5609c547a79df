import Mathlib.Data.Nat.Basic
import Mathlib.Data.List.Basic
import TurtleCurves.Store

/-!
This module contains what actions leave in the store: an action in steps performs them one after the other,
making the directories of a file touches no other name, and writing touches that of the file only.
-/

namespace TurtleCurves

namespace Task

variable {α β : Type} {store after : Store} {task : Task α}

theorem perform_bind_ok {a : α} (h : task.perform store = (.ok a, after)) (next : α → Task β) :
    (task >>= next).perform store = (next a).perform after := by
  change (ExceptT.bindCont next (task.perform store).1).run (task.perform store).2 = _
  rw [h]
  rfl

theorem perform_bind_eq_ok {next : α → Task β} {b : β}
    (h : (task >>= next).perform store = (.ok b, after)) :
    ∃ a between, task.perform store = (.ok a, between) ∧ (next a).perform between = (.ok b, after) := by
  change (ExceptT.bindCont next (task.perform store).1).run (task.perform store).2 = _ at h
  cases hfirst : task.perform store with
  | mk result between =>
    rw [hfirst] at h
    cases result with
    | error fault => cases h
    | ok a => exact ⟨a, between, rfl, h⟩

theorem perform_bind_error {fault : Fault} (h : task.perform store = (.error fault, after))
    (next : α → Task β) : (task >>= next).perform store = (.error fault, after) := by
  change (ExceptT.bindCont next (task.perform store).1).run (task.perform store).2 = _
  rw [h]
  rfl

theorem perform_bind_eq_error {next : α → Task β} {fault : Fault}
    (h : (task >>= next).perform store = (.error fault, after)) :
    task.perform store = (.error fault, after) ∨
      ∃ a between, task.perform store = (.ok a, between) ∧
        (next a).perform between = (.error fault, after) := by
  cases hfirst : task.perform store with
  | mk result between =>
    cases result with
    | error fault' =>
      rw [perform_bind_error hfirst] at h
      cases h
      exact .inl rfl
    | ok a =>
      rw [perform_bind_ok hfirst] at h
      exact .inr ⟨a, between, rfl, h⟩

theorem perform_ofResult (result : Result α) (store : Store) :
    (ofResult result).perform store = (result, store) := by
  cases result <;> rfl

theorem perform_ofResult_eq_ok {result : Result α} {a : α}
    (h : (ofResult result).perform store = (.ok a, after)) : result = .ok a ∧ after = store := by
  cases result with
  | error fault => cases h
  | ok b =>
    cases h
    exact ⟨rfl, rfl⟩

end Task

namespace Store

variable {store after : Store} {name other : FileName} {contents : Contents}

theorem steps_ne_nil (h : store.find? name ≠ some .directory) : name.steps ≠ [] := by
  intro hnil
  exact h (by simp [find?, hnil])

theorem perform_write (store : Store) (name : FileName) (contents : Contents) :
    (write name contents).perform store =
      match store.find? name with
      | some .directory => (.error .isDirectory, store)
      | _ => (.ok (), store.put name (.file contents)) := by
  change (match store.find? name with | some .directory => _ | _ => _ : Task Unit).run store = _
  cases store.find? name with
  | none => rfl
  | some node => cases node <;> rfl

theorem perform_write_of_ne (contents : Contents) (h : store.find? name ≠ some .directory) :
    (write name contents).perform store = (.ok (), store.put name (.file contents)) := by
  rw [perform_write]
  split
  . next hdirectory => exact absurd hdirectory h
  . rfl

theorem exists_perform_write (contents : Contents) (h : store.find? name ≠ some .directory) :
    ∃ after, (write name contents).perform store = (.ok (), after) ∧
      after.find? name = some (.file contents) :=
  ⟨_, perform_write_of_ne contents h, find?_put_self store _ (steps_ne_nil h)⟩

theorem perform_write_eq_ok (h : (write name contents).perform store = (.ok (), after)) :
    store.find? name ≠ some .directory ∧ after = store.put name (.file contents) := by
  rw [perform_write] at h
  split at h
  . cases h
  . next hne =>
    cases h
    exact ⟨hne, rfl⟩

theorem find?_of_perform_write (h : (write name contents).perform store = (.ok (), after))
    (other : FileName) :
    after.find? other = if other = name then some (.file contents) else store.find? other := by
  obtain ⟨hne, rfl⟩ := perform_write_eq_ok h
  split
  . next heq =>
    rw [heq]
    exact find?_put_self store _ (steps_ne_nil hne)
  . next hother => exact find?_put_of_ne store _ hother

theorem perform_makeParents (store : Store) (name : FileName) :
    (makeParents name).perform store =
      match store.obstacle? name.ancestors with
      | some obstacle => (.error (if obstacle = name.parent then .fileInTheWay else .notDirectory), store)
      | none => (.ok (), store.withDirectories name.ancestors) := by
  change (match store.obstacle? name.ancestors with | some _ => _ | none => _ : Task Unit).run store = _
  cases store.obstacle? name.ancestors <;> rfl

theorem perform_write_eq_error {fault : Fault}
    (h : (write name contents).perform store = (.error fault, after)) : fault = .isDirectory := by
  rw [perform_write] at h
  split at h <;> cases h
  rfl

theorem perform_makeParents_eq_error {fault : Fault}
    (h : (makeParents name).perform store = (.error fault, after)) : after = store := by
  rw [perform_makeParents] at h
  split at h <;> cases h
  rfl

theorem perform_makeParents_eq_ok (h : (makeParents name).perform store = (.ok (), after)) :
    after = store.withDirectories name.ancestors := by
  rw [perform_makeParents] at h
  split at h
  . cases h
  . cases h
    rfl

theorem find?_withDirectories {directories : List FileName}
    (h : (store.find? name).isSome ∨ name ∉ directories) :
    (store.withDirectories directories).find? name = store.find? name := by
  induction directories generalizing store with
  | nil => rfl
  | cons directory directories ih =>
    have hstep : (if (store.find? directory).isSome then store else store.put directory .directory).find? name
        = store.find? name := by
      split
      . rfl
      . next hnone =>
        apply find?_put_of_ne
        rintro rfl
        exact h.elim hnone fun hmem => hmem (List.mem_cons_self ..)
    unfold withDirectories at ih ⊢
    rw [List.foldl_cons]
    rw [ih]
    . exact hstep
    . rw [hstep]
      exact h.imp_right fun hmem hrest => hmem (List.mem_cons_of_mem _ hrest)

theorem not_mem_ancestors (h : other.parent = name.parent) : other ∉ name.ancestors := by
  intro hmem
  obtain ⟨depth, hdepth, rfl⟩ := List.mem_map.1 hmem
  rw [List.mem_range] at hdepth
  have hlength := congrArg (fun name => name.steps.length) h
  simp only [FileName.parent, List.length_dropLast, List.length_take] at hlength
  omega

end Store
end TurtleCurves
