import TurtleCurves.Proofs.Settings.Section
import TurtleCurves.Proofs.Store.Basic
import TurtleCurves.Settings.File

/-!
This module contains the round trip of settings through their file: what was accepted once is written with
all its fields, and is accepted again as the same settings.
-/

namespace TurtleCurves
namespace Settings

variable {s : Settings} {fields : Fields} {store : Store} {name : FileName}

def document (s : Settings) : Value :=
  .object [(sectionName, .object s.named)]

theorem toDocument_eq (h : s.IsStorable) : s.toDocument = .ok s.document := by
  unfold toDocument
  rw [toFields_eq h]
  rfl

theorem isJson_document (h : s.IsStorable) : s.document.isJson := by
  have hvalues : Value.haveJson s.named := by
    rw [haveJson_iff]
    intro field hfield
    obtain ⟨field, -, rfl⟩ := List.mem_map.1 hfield
    exact h.isJson field
  have hnames : (Entries.keys s.named).Nodup := by
    rw [keys_named]
    decide
  rw [Entries.keys] at hnames
  simp [document, Value.isJson, Value.haveJson, hvalues, hnames, Entries.keys]

theorem read_write_document (h : s.IsStorable) :
    Json.read (Json.write fileLayout s.document ++ "\n") = .ok s.document :=
  Json.read_write (by decide) (isJson_document h) (by decide)

theorem ofDocument_document (h : s.IsStorable) (hvalid : s.validate = .ok ()) :
    ofDocument s.document = .ok s := by
  change ofValue (.object s.named) = _
  exact ofValue_named h hvalid

theorem perform_save (h : s.IsStorable) (hname : store.find? name ≠ some .directory)
    (hparents : store.obstacle? name.ancestors = none) :
    ∃ after, (s.save name).perform store = (.ok (), after) ∧
      after.find? name = some (.file (.text (Json.write fileLayout s.document ++ "\n"))) := by
  have hmade : (Store.makeParents name).perform store = (.ok (), store.withDirectories name.ancestors) := by
    rw [Store.perform_makeParents, hparents]
  have hready : (store.withDirectories name.ancestors).find? name ≠ some .directory := by
    rw [Store.find?_withDirectories (.inr (Store.not_mem_ancestors rfl))]
    exact hname
  -- The file is emptied first and keeps its name while the document is made.
  obtain ⟨begun, hbegun, hempty⟩ := Store.exists_perform_write (.text "") hready
  have hbegun' : begun.find? name ≠ some .directory := by
    rw [hempty]
    simp
  obtain ⟨after, hwritten, hfile⟩ :=
    Store.exists_perform_write (.text (Json.write fileLayout s.document ++ "\n")) hbegun'
  refine ⟨after, ?_, hfile⟩
  unfold save
  rw [Task.perform_bind_ok hmade, Task.perform_bind_ok hbegun, toDocument_eq h]
  exact hwritten

theorem load_eq {text : String} (hfile : store.find? name = some (.file (.text text)))
    (hread : Json.read text = .ok (.object fields)) : load store name = .ok (.object fields) := by
  have htext : store.readText name = .ok text := by
    unfold Store.readText Store.contents
    rw [hfile]
    rfl
  unfold load
  simp only [htext, hread, bind, Except.bind, pure, Except.pure]

/-- Settings that are read from data are the same after they were written and read again. -/
theorem load_save (hdata : (Value.object fields).isJson) (hs : ofValue (.object fields) = .ok s)
    (hname : store.find? name ≠ some .directory) (hparents : store.obstacle? name.ancestors = none) :
    (∃ values, s.toFields = .ok values ∧ ofValue (.object values) = .ok s) ∧
      ∃ after document, (s.save name).perform store = (.ok (), after) ∧
        load after name = .ok document ∧ ofDocument document = .ok s := by
  have hstorable := isStorable_of_ofValue hdata hs
  obtain ⟨_, -, -, hvalid⟩ := ofValue_eq_ok hs
  refine ⟨⟨s.named, toFields_eq hstorable, ofValue_named hstorable hvalid⟩, ?_⟩
  obtain ⟨after, hsave, hfile⟩ := perform_save hstorable hname hparents
  exact ⟨after, s.document, hsave, load_eq hfile (read_write_document hstorable),
    ofDocument_document hstorable hvalid⟩

def mixedFields : Fields :=
  [("width", .float 640.5), ("background", .list [.float 1.5, .text " 7 ", .bool true, .int 255]),
   ("save_metadata", .text "no")]

def mixedSettings : Settings where
  width := .float 640.5
  background := .list [.int 1, .int 7, .int 1, .int 255]
  saveMetadata := .text "no"

theorem readColors_mixedFields :
    readColors mixedFields =
      .ok (mixedFields.put "background" (.list [.int 1, .int 7, .int 1, .int 255])) := by
  rfl

theorem ofValue_mixedFields : ofValue (.object mixedFields) = .ok mixedSettings :=
  ofValue_of_isKnown (by decide) readColors_mixedFields (by rfl) (by rfl)

def nestedName : FileName :=
  ⟨["configs", "render.json"], false⟩

theorem load_save_mixed :
    (Value.object mixedFields).isJson = true ∧ ofValue (.object mixedFields) = .ok mixedSettings ∧
      (∃ values, mixedSettings.toFields = .ok values ∧ ofValue (.object values) = .ok mixedSettings) ∧
      ∃ after document, (mixedSettings.save nestedName).perform {} = (.ok (), after) ∧
        load after nestedName = .ok document ∧ ofDocument document = .ok mixedSettings := by
  have hdata : (Value.object mixedFields).isJson = true := by decide +kernel
  have hname : ({} : Store).find? nestedName ≠ some .directory := by decide
  have hparents : ({} : Store).obstacle? nestedName.ancestors = none := by decide
  exact ⟨hdata, ofValue_mixedFields, load_save hdata ofValue_mixedFields hname hparents⟩

end Settings
end TurtleCurves
