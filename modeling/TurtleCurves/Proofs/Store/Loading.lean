import TurtleCurves.Proofs.Metadata
import TurtleCurves.Proofs.Store.Saving

/-!
This module contains which description is loaded for a picture after a run of savings. A picture without
loss has the description of its own latest saving. Pictures with loss in one directory whose names differ in
the suffix alone share their companion file, and with it the description that was written last.
-/

namespace TurtleCurves
namespace Picture

variable {name : FileName} {format : Format} {s : Saving}

theorem suffix_eq_of_png (h : formatOf? name = some .png) : name.suffix = ".png" := by
  simp only [formatOf?, Format.ofSuffix, Entries.get?] at h
  split at h
  . next hsuffix => exact hsuffix.symm
  . split at h
    . cases h
    . split at h <;> cases h

theorem suffix_ne_of_jpeg (h : formatOf? name = some .jpeg) : name.suffix ≠ ".png" := by
  intro hsuffix
  rw [formatOf?, hsuffix] at h
  cases h

theorem last_ne_of_formatOf? (h : formatOf? name = some format) : name.last ≠ "" := by
  intro hlast
  apply suffix_ne_of_formatOf? h
  rw [FileName.suffix, hlast]
  rfl

theorem Saving.get?_notes {notes : List (String × String)} (h : s.notes = .ok notes) :
    Entries.get? notes descriptionKey = s.metadata.map (·.write Metadata.layout) := by
  unfold Saving.notes at h
  cases hmetadata : s.metadata with
  | none =>
    rw [hmetadata] at h
    cases h
    rfl
  | some m =>
    rw [hmetadata] at h
    simp only [Picture.notes] at h
    split at h
    . cases h
      rfl
    . cases h

end Picture

namespace Metadata

open Picture

variable {file : FileName} {store after : Store} {savings : List Saving} {s : Saving}

theorem find_png {p : Picture} {notes : List (String × String)} (hformat : formatOf? file = some .png)
    (hfile : store.find? file = some (.file (.png p notes))) :
    find store file = .ok (Entries.get? notes descriptionKey) := by
  have hcontents : store.contents file = .ok (.png p notes) := by
    unfold Store.contents
    rw [hfile]
  unfold find
  rw [if_pos (suffix_eq_of_png hformat)]
  rw [hcontents]
  rfl

theorem find_jpeg_none (hformat : formatOf? file = some .jpeg)
    (hcompanion : store.find? (companion file) = none) : find store file = .ok none := by
  unfold companion at hcompanion
  unfold find
  rw [if_neg (suffix_ne_of_jpeg hformat), if_neg (last_ne_of_formatOf? hformat)]
  simp only [hcompanion]
  rfl

theorem find_jpeg_text {text : String} (hformat : formatOf? file = some .jpeg)
    (hcompanion : store.find? (companion file) = some (.file (.text text))) :
    find store file = .ok (some text) := by
  unfold companion at hcompanion
  have htext : store.readText (file.withSuffix companionSuffix) = .ok text := by
    unfold Store.readText Store.contents
    rw [hcompanion]
    rfl
  unfold find
  rw [if_neg (suffix_ne_of_jpeg hformat), if_neg (last_ne_of_formatOf? hformat)]
  simp only [hcompanion, htext]
  rfl

theorem load_of_find {metadata : Option Metadata} (hmade : ∀ m, metadata = some m → m.IsMade)
    (h : find store file = .ok (metadata.map (·.write layout))) (later : String) :
    load later store file = .ok metadata := by
  unfold load
  rw [h]
  cases metadata with
  | none => rfl
  | some m =>
    have hread : read later (m.write layout) = .ok m := (hmade m rfl).read_write (by decide) later
    simp only [Option.map_some, hread, bind, Except.bind, pure, Except.pure]

theorem load_png (hrun : (savings.forM Saving.save).perform store = (.ok (), after))
    (hplace : ∀ s ∈ savings, s.name.parent = file.parent)
    (hmade : ∀ s ∈ savings, ∀ m, s.metadata = some m → m.IsMade)
    (hformat : formatOf? file = some .png)
    (hlatest : Saving.latest? (·.name = file) savings = some s) (later : String) :
    load later after file = .ok s.metadata := by
  have hwrites : ∀ s : Saving, (formatOf? s.name).isSome →
      (decide (s.name = file) = true ↔ file = s.name ∨ s.describesIn file) := by
    intro s _
    simp [Saving.describesIn_of_formatOf? hformat s, eq_comm]
  have hafter := Saving.find?_of_perform_savings hrun
    (fun s hs => Store.not_mem_ancestors (hplace s hs).symm) hwrites
  rw [hlatest] at hafter
  obtain ⟨contents, hleaves, hfile⟩ := hafter
  obtain ⟨notes, hnotes, rfl⟩ := hleaves.eq_png hformat
  apply load_of_find (hmade s (Saving.mem_of_latest? hlatest))
  rw [find_png hformat hfile]
  rw [Saving.get?_notes hnotes]

theorem load_jpeg (hrun : (savings.forM Saving.save).perform store = (.ok (), after))
    (hplace : ∀ s ∈ savings, s.name.parent = file.parent)
    (hmade : ∀ s ∈ savings, ∀ m, s.metadata = some m → m.IsMade)
    (hformat : formatOf? file = some .jpeg) (later : String) :
    match Saving.latest? (·.describesIn (companion file)) savings with
    | some s => load later after file = .ok s.metadata
    | none => store.find? (companion file) = none → load later after file = .ok none := by
  have hcompanion := formatOf?_companion hformat
  have hparents : ∀ s ∈ savings, companion file ∉ s.name.ancestors := fun s hs =>
    Store.not_mem_ancestors ((parent_companion file).trans (hplace s hs).symm)
  have hwrites : ∀ s : Saving, (formatOf? s.name).isSome →
      (s.describesIn (companion file) = true ↔
        companion file = s.name ∨ s.describesIn (companion file)) := by
    intro s hs
    -- A companion file is no picture, so no saving has its name.
    have hne : companion file ≠ s.name := by
      intro heq
      rw [← heq, hcompanion] at hs
      cases hs
    simp [hne]
  have hafter := Saving.find?_of_perform_savings hrun hparents hwrites
  cases hlatest : Saving.latest? (·.describesIn (companion file)) savings with
  | some s =>
    rw [hlatest] at hafter
    obtain ⟨contents, hleaves, hfile⟩ := hafter
    obtain ⟨m, hmetadata, rfl⟩ := hleaves.eq_text hcompanion
    apply load_of_find (hmade s (Saving.mem_of_latest? hlatest))
    rw [hmetadata]
    exact find_jpeg_text hformat hfile
  | none =>
    rw [hlatest] at hafter
    intro hnone
    apply load_of_find (by simp)
    exact find_jpeg_none hformat (hafter.trans hnone)

/-- What is loaded for a picture that was saved at least once: without loss, the description of its latest
saving; with loss, the description that came last into its companion file, as long as the picture that it came
with was not saved again without one. -/
theorem load_saved (hrun : (savings.forM Saving.save).perform store = (.ok (), after))
    (hplace : ∀ s ∈ savings, s.name.parent = file.parent)
    (hmade : ∀ s ∈ savings, ∀ m, s.metadata = some m → m.IsMade)
    (hlatest : Saving.latest? (·.name = file) savings = some s) (later : String) :
    match formatOf? file with
    | some .png => load later after file = .ok s.metadata
    | some .jpeg =>
      match Saving.latest? (·.describesIn (companion file)) savings with
      | some t =>
        Saving.latest? (·.name = t.name) savings = some t → load later after file = .ok t.metadata
      | none => store.find? (companion file) = none → load later after file = .ok none
    | none => False := by
  have hfile : s.name = file := by simpa using Saving.of_latest? hlatest
  have hsome := Saving.isSome_formatOf?_of_perform_savings hrun (Saving.mem_of_latest? hlatest)
  rw [hfile] at hsome
  split
  . next hformat => exact load_png hrun hplace hmade hformat hlatest later
  . next hformat =>
    have hload := load_jpeg hrun hplace hmade hformat later
    split
    . next t ht =>
      rw [ht] at hload
      exact fun _ => hload
    . next hnone =>
      rw [hnone] at hload
      exact hload
  . next hnone =>
    rw [hnone] at hsome
    cases hsome

def curveSample (curve : String) : Metadata where
  fractalType := .text curve
  iterations := .int 1
  symbolCount := .int 4
  segmentCount := .int 4
  resolution := [.int 64, .int 48]
  bounds := [.int 0, .int 1, .int 0, .int 1]
  renderTimeSeconds := .int 0
  timestamp := .text "2024-05-01T12:00:00"
  softwareVersion := .text version
  fractalParameters := .object []

theorem isMade_curveSample (curve : String) : (curveSample curve).IsMade where
  isJson := by
    simp only [curveSample, toValue, Value.isJson, Value.haveJson, Value.areJson, Entries.keys,
      List.map_cons, List.map_nil, Bool.true_and, Bool.and_true]
    decide +kernel
  isSet := by simp [curveSample, Value.isSet]
  hasParameters := by simp [curveSample]

def savingSample (name : String) (metadata : Option Metadata) : Saving where
  picture := ⟨.color, 64, 48⟩
  name := ⟨[name], false⟩
  metadata := metadata
  quality := .int 95

def sampleSavings : List Saving :=
  [savingSample "a.png" (some (curveSample "Koch")), savingSample "a.jpg" (some (curveSample "Koch")),
   savingSample "a.jpeg" (some (curveSample "Levy")), savingSample "a.png" none]

def sampleStore : Store :=
  ((sampleSavings.forM Saving.save).perform {}).2

theorem perform_sampleSavings : (sampleSavings.forM Saving.save).perform {} = (.ok (), sampleStore) := by
  rfl

theorem isMade_sampleSavings : ∀ s ∈ sampleSavings, ∀ m, s.metadata = some m → m.IsMade := by
  intro s hs m hm
  simp only [sampleSavings, savingSample, List.mem_cons, List.not_mem_nil, or_false] at hs
  rcases hs with rfl | rfl | rfl | rfl
  all_goals
    cases hm
    try exact isMade_curveSample _

theorem load_saved_sampleSavings :
    (sampleSavings.forM Saving.save).perform {} = (.ok (), sampleStore) ∧
      load "2025-01-01T00:00:00" sampleStore ⟨["a.png"], false⟩ = .ok none ∧
      load "2025-01-01T00:00:00" sampleStore ⟨["a.jpg"], false⟩ = .ok (some (curveSample "Levy")) := by
  have hplace (last : String) : ∀ s ∈ sampleSavings, s.name.parent = (FileName.mk [last] false).parent := by
    change ∀ s ∈ sampleSavings, s.name.parent = ⟨[], false⟩
    decide
  have hpng : Saving.latest? (·.name = ⟨["a.png"], false⟩) sampleSavings
      = some (savingSample "a.png" none) := by
    rfl
  have hjpg : Saving.latest? (·.name = ⟨["a.jpg"], false⟩) sampleSavings
      = some (savingSample "a.jpg" (some (curveSample "Koch"))) := by
    rfl
  have hloadPng := load_saved perform_sampleSavings (hplace "a.png") isMade_sampleSavings hpng
    "2025-01-01T00:00:00"
  have hloadJpg := load_saved perform_sampleSavings (hplace "a.jpg") isMade_sampleSavings hjpg
    "2025-01-01T00:00:00"
  exact ⟨perform_sampleSavings, hloadPng, hloadJpg rfl⟩

theorem curveSample_injective {a b : String} (h : curveSample a = curveSample b) : a = b :=
  Value.text.inj (congrArg fractalType h)

/-- A picture with loss loses its description to another that is saved after it. -/
theorem load_sharedCompanion :
    (sampleSavings.forM Saving.save).perform {} = (.ok (), sampleStore) ∧
      Saving.latest? (·.name = ⟨["a.jpg"], false⟩) sampleSavings
        = some (savingSample "a.jpg" (some (curveSample "Koch"))) ∧
      load "2025-01-01T00:00:00" sampleStore ⟨["a.jpg"], false⟩ = .ok (some (curveSample "Levy")) ∧
      curveSample "Levy" ≠ curveSample "Koch" := by
  refine ⟨perform_sampleSavings, by rfl, ?_, fun h => absurd (curveSample_injective h) (by decide)⟩
  have hplace : ∀ s ∈ sampleSavings, s.name.parent = (FileName.mk ["a.jpg"] false).parent := by
    change ∀ s ∈ sampleSavings, s.name.parent = ⟨[], false⟩
    decide
  exact load_jpeg perform_sampleSavings hplace isMade_sampleSavings (by decide +kernel) "2025-01-01T00:00:00"

end Metadata
end TurtleCurves
