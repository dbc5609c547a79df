import TurtleCurves.Proofs.Store.Basic
import TurtleCurves.Store.Image

/-!
This module contains what savings of pictures leave in the store. Each writes the file of its picture, and
one with loss its companion file besides if it comes with a description. After a run every name holds what
the latest saving that writes it has left there.
-/

namespace TurtleCurves
namespace Picture

variable {name file : FileName} {format : Format} {store after : Store}

def formatOf? (name : FileName) : Option Format :=
  Format.ofSuffix.get? name.suffix

def companion (name : FileName) : FileName :=
  name.withSuffix companionSuffix

theorem suffix_ne_of_formatOf? (h : formatOf? name = some format) : name.suffix ≠ "" := by
  intro hsuffix
  rw [formatOf?, hsuffix] at h
  cases h

theorem cut_append_companionSuffix {stem : String} (h : stem.toList ≠ []) :
    FileName.cut (stem ++ companionSuffix) = (stem, companionSuffix) := by
  unfold FileName.cut
  simp [companionSuffix, h]

theorem stem_ne_of_formatOf? (h : formatOf? name = some format) :
    (FileName.cut name.last).1.toList ≠ [] := by
  have hsuffix := suffix_ne_of_formatOf? h
  unfold FileName.suffix at hsuffix
  unfold FileName.cut at hsuffix ⊢
  simp only at hsuffix ⊢
  split at hsuffix
  . exact absurd rfl hsuffix
  . next hparts =>
    rw [if_neg hparts]
    rw [String.toList_ofList]
    exact fun hstem => hparts (.inr hstem)

theorem formatOf?_companion (h : formatOf? name = some format) : formatOf? (companion name) = none := by
  have hlast : (companion name).last = (FileName.cut name.last).1 ++ companionSuffix := by
    simp [companion, FileName.withSuffix, FileName.last]
  unfold formatOf? FileName.suffix
  rw [hlast]
  rw [cut_append_companionSuffix (stem_ne_of_formatOf? h)]
  change Format.ofSuffix.get? (Text.lower companionSuffix) = none
  decide +kernel

theorem parent_companion (name : FileName) : (companion name).parent = name.parent := by
  simp [companion, FileName.withSuffix, FileName.parent]

structure Saving where
  picture : Picture
  name : FileName
  metadata : Option Metadata
  quality : Value

namespace Saving

variable {s : Saving} {savings : List Saving} {p : Saving → Bool} {contents : Contents}

def save (s : Saving) : Task Unit :=
  s.picture.save s.name s.metadata s.quality

def notes (s : Saving) : Result (List (String × String)) :=
  match s.metadata with
  | some m => Picture.notes m
  | none => .ok []

def describesIn (file : FileName) (s : Saving) : Bool :=
  formatOf? s.name = some .jpeg ∧ s.metadata.isSome ∧ companion s.name = file

/-- What a saving leaves under a name. -/
inductive Leaves (s : Saving) : FileName → Contents → Prop
  | png {notes : List (String × String)} (hformat : formatOf? s.name = some .png)
      (hnotes : s.notes = .ok notes) : Leaves s s.name (.png s.picture notes)
  | jpeg (hformat : formatOf? s.name = some .jpeg) :
      Leaves s s.name (.jpeg { s.picture with mode := .color })
  | companion {m : Metadata} (hformat : formatOf? s.name = some .jpeg) (hmetadata : s.metadata = some m) :
      Leaves s (companion s.name) (.text (m.write Metadata.layout))

theorem perform_save_eq_ok (h : s.save.perform store = (.ok (), after)) :
    ∃ format, formatOf? s.name = some format ∧
      (match format with
        | .png => s.picture.savePng s.name s.metadata
        | .jpeg => s.picture.saveJpeg s.name s.metadata s.quality).perform
          (store.withDirectories s.name.ancestors) = (.ok (), after) := by
  unfold save Picture.save at h
  split at h
  . cases h
  . next format hformat =>
    obtain ⟨_, between, hparents, h⟩ := Task.perform_bind_eq_ok h
    rw [Store.perform_makeParents_eq_ok hparents] at h
    exact ⟨format, hformat, h⟩

theorem perform_savePng_eq_ok (h : (s.picture.savePng s.name s.metadata).perform store = (.ok (), after)) :
    ∃ notes, s.notes = .ok notes ∧
      (Store.write s.name (.png s.picture notes)).perform store = (.ok (), after) := by
  unfold savePng at h
  unfold Saving.notes
  cases hmetadata : s.metadata with
  | none =>
    rw [hmetadata] at h
    exact ⟨[], rfl, h⟩
  | some m =>
    rw [hmetadata] at h
    obtain ⟨notes, between, hperformed, hwrite⟩ := Task.perform_bind_eq_ok h
    obtain ⟨hnotes, rfl⟩ := Task.perform_ofResult_eq_ok hperformed
    exact ⟨notes, hnotes, hwrite⟩

theorem perform_saveJpeg_eq_ok
    (h : (s.picture.saveJpeg s.name s.metadata s.quality).perform store = (.ok (), after)) :
    ∃ between, (Store.write s.name (.jpeg { s.picture with mode := .color })).perform store
        = (.ok (), between) ∧
      (match s.metadata with
        | some m => Store.write (companion s.name) (.text (m.write Metadata.layout))
        | none => pure ()).perform between = (.ok (), after) := by
  unfold saveJpeg at h
  obtain ⟨_, checked, hchecked, hwrites⟩ := Task.perform_bind_eq_ok h
  obtain ⟨-, rfl⟩ := Task.perform_ofResult_eq_ok hchecked
  obtain ⟨_, between, hpicture, hdescription⟩ := Task.perform_bind_eq_ok hwrites
  exact ⟨between, hpicture, hdescription⟩

theorem describesIn_eq_true :
    s.describesIn file = true ↔
      formatOf? s.name = some .jpeg ∧ s.metadata.isSome ∧ companion s.name = file := by
  simp [describesIn]

theorem leaves_of_perform_save (h : s.save.perform store = (.ok (), after))
    (hname : name = s.name ∨ s.describesIn name) :
    ∃ contents, s.Leaves name contents ∧ after.find? name = some (.file contents) := by
  obtain ⟨format, hformat, h⟩ := perform_save_eq_ok h
  cases format with
  | png =>
    have hsame : name = s.name := by simpa [describesIn, hformat] using hname
    obtain ⟨notes, hnotes, h⟩ := perform_savePng_eq_ok h
    subst hsame
    exact ⟨_, .png hformat hnotes, by rw [Store.find?_of_perform_write h, if_pos rfl]⟩
  | jpeg =>
    obtain ⟨between, hpicture, h⟩ := perform_saveJpeg_eq_ok h
    cases hmetadata : s.metadata with
    | none =>
      have hsame : name = s.name := by simpa [describesIn, hmetadata] using hname
      rw [hmetadata] at h
      cases h
      subst hsame
      exact ⟨_, .jpeg hformat, by rw [Store.find?_of_perform_write hpicture, if_pos rfl]⟩
    | some m =>
      rw [hmetadata] at h
      have hafter := Store.find?_of_perform_write h name
      -- The description is written after the picture, so it is what counts under its name.
      by_cases hcompanion : name = companion s.name
      . rw [if_pos hcompanion] at hafter
        subst hcompanion
        exact ⟨_, .companion hformat hmetadata, hafter⟩
      . have hsame : name = s.name := hname.elim id fun hdescribes =>
          absurd (describesIn_eq_true.1 hdescribes).2.2.symm hcompanion
        rw [if_neg hcompanion, Store.find?_of_perform_write hpicture, if_pos hsame] at hafter
        subst hsame
        exact ⟨_, .jpeg hformat, hafter⟩

theorem find?_of_perform_save (h : s.save.perform store = (.ok (), after)) (hname : name ≠ s.name)
    (hdescribes : s.describesIn name = false) (hparents : name ∉ s.name.ancestors) :
    after.find? name = store.find? name := by
  -- In its directory a saving changes nothing but what it writes.
  obtain ⟨format, hformat, h⟩ := perform_save_eq_ok h
  have hmade : (store.withDirectories s.name.ancestors).find? name = store.find? name :=
    Store.find?_withDirectories (.inr hparents)
  rw [← hmade]
  cases format with
  | png =>
    obtain ⟨notes, hnotes, h⟩ := perform_savePng_eq_ok h
    rw [Store.find?_of_perform_write h, if_neg hname]
  | jpeg =>
    obtain ⟨between, hpicture, h⟩ := perform_saveJpeg_eq_ok h
    have hbetween := Store.find?_of_perform_write hpicture name
    rw [if_neg hname] at hbetween
    rw [← hbetween]
    cases hmetadata : s.metadata with
    | none =>
      rw [hmetadata] at h
      cases h
      rfl
    | some m =>
      rw [hmetadata] at h
      have hcompanion : name ≠ companion s.name := by
        rintro rfl
        simp [describesIn, hformat, hmetadata] at hdescribes
      rw [Store.find?_of_perform_write h, if_neg hcompanion]

def latest? (p : Saving → Bool) (savings : List Saving) : Option Saving :=
  savings.reverse.find? p

theorem latest?_cons (p : Saving → Bool) (s : Saving) (savings : List Saving) :
    latest? p (s :: savings) = (latest? p savings).or (if p s then some s else none) := by
  unfold latest?
  rw [List.reverse_cons, List.find?_append, List.find?_singleton]

theorem mem_of_latest? (h : latest? p savings = some s) : s ∈ savings :=
  List.mem_reverse.1 (List.mem_of_find?_eq_some h)

theorem of_latest? (h : latest? p savings = some s) : p s :=
  List.find?_some h

theorem isSome_formatOf?_of_perform_savings (h : (savings.forM save).perform store = (.ok (), after))
    (hs : s ∈ savings) : (formatOf? s.name).isSome := by
  induction savings generalizing store with
  | nil => cases hs
  | cons t savings ih =>
    obtain ⟨_, between, hfirst, hrest⟩ := Task.perform_bind_eq_ok h
    rcases List.mem_cons.1 hs with rfl | hs
    . obtain ⟨format, hformat, -⟩ := perform_save_eq_ok hfirst
      simp [hformat]
    . exact ih hrest hs

theorem find?_of_perform_savings (h : (savings.forM save).perform store = (.ok (), after))
    (hparents : ∀ s ∈ savings, name ∉ s.name.ancestors)
    (hp : ∀ s, (formatOf? s.name).isSome → (p s ↔ name = s.name ∨ s.describesIn name)) :
    match latest? p savings with
    | some s => ∃ contents, s.Leaves name contents ∧ after.find? name = some (.file contents)
    | none => after.find? name = store.find? name := by
  induction savings generalizing store with
  | nil =>
    cases h
    rfl
  | cons s savings ih =>
    obtain ⟨_, between, hfirst, hrest⟩ := Task.perform_bind_eq_ok h
    obtain ⟨format, hformat, -⟩ := perform_save_eq_ok hfirst
    have hwrites := hp s (by simp [hformat])
    have hafter := ih hrest fun t ht => hparents t (List.mem_cons_of_mem _ ht)
    rw [latest?_cons]
    -- A later saving that writes the name overrules the first one, and otherwise keeps what that has left.
    cases hlatest : latest? p savings with
    | some t =>
      rw [hlatest] at hafter
      exact hafter
    | none =>
      rw [hlatest] at hafter
      by_cases hs : p s
      . obtain ⟨contents, hleaves, hbetween⟩ := leaves_of_perform_save hfirst (hwrites.1 hs)
        simp only [hs, if_true, Option.none_or]
        exact ⟨contents, hleaves, hafter.trans hbetween⟩
      . have hsame := mt hwrites.2 hs
        rw [not_or, Bool.not_eq_true] at hsame
        simp only [hs, Option.none_or]
        exact hafter.trans (find?_of_perform_save hfirst hsame.1 hsame.2 (hparents s (List.mem_cons_self ..)))

theorem describesIn_of_formatOf? (h : formatOf? file = some format) (s : Saving) :
    s.describesIn file = false := by
  rw [Bool.eq_false_iff, Ne, describesIn_eq_true]
  rintro ⟨hformat, -, rfl⟩
  rw [formatOf?_companion hformat] at h
  cases h

theorem Leaves.eq_png (h : s.Leaves file contents) (hformat : formatOf? file = some .png) :
    ∃ notes, s.notes = .ok notes ∧ contents = .png s.picture notes := by
  cases h with
  | png _ hnotes => exact ⟨_, hnotes, rfl⟩
  | jpeg hjpeg =>
    rw [hjpeg] at hformat
    cases hformat
  | companion hjpeg =>
    rw [formatOf?_companion hjpeg] at hformat
    cases hformat

theorem Leaves.eq_text (h : s.Leaves name contents) (hname : formatOf? name = none) :
    ∃ m, s.metadata = some m ∧ contents = .text (m.write Metadata.layout) := by
  cases h with
  | png hformat =>
    rw [hformat] at hname
    cases hname
  | jpeg hformat =>
    rw [hformat] at hname
    cases hname
  | companion _ hmetadata => exact ⟨_, hmetadata, rfl⟩

end Saving
end Picture
end TurtleCurves
