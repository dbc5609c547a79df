import TurtleCurves.Metadata
import TurtleCurves.Proofs.Json.RoundTrip

/-!
This module contains the round trip of descriptions. A description is written as a document with all its
fields, and since its time is set and its parameters are there, reading changes neither.
-/

namespace TurtleCurves
namespace Metadata

variable {m : Metadata} {now : String} {layout : Json.Layout}

/-- The description that is made of given fields: an unset time is now, and absent parameters are none. -/
def made (now : String) (m : Metadata) : Metadata :=
  { m with
    timestamp := timeOr now m.timestamp
    fractalParameters := parametersOf m.fractalParameters }

theorem isSet_timeOr (hnow : now ≠ "") (timestamp : Value) : (timeOr now timestamp).isSet := by
  unfold timeOr
  split
  . assumption
  . simpa [Value.isSet] using hnow

theorem timeOr_of_isSet {timestamp : Value} (h : timestamp.isSet) : timeOr now timestamp = timestamp :=
  if_pos h

theorem isJson_timeOr {timestamp : Value} (h : timestamp.isJson) : (timeOr now timestamp).isJson := by
  unfold timeOr
  split
  . exact h
  . simp [Value.isJson]

theorem isJson_parametersOf {parameters : Value} (h : parameters.isJson) :
    (parametersOf parameters).isJson := by
  cases parameters <;> simp_all [parametersOf, Value.isJson, Value.haveJson, Entries.keys]

theorem isJson_toValue_made (now : String) (h : m.toValue.isJson) : (m.made now).toValue.isJson := by
  simp only [toValue, Value.isJson, Value.haveJson, Bool.and_eq_true, Entries.keys, List.map_cons,
    List.map_nil] at h ⊢
  simp_all [made, isJson_timeOr, isJson_parametersOf]

theorem ofValue_toValue (now : String) (m : Metadata) : ofValue now m.toValue = .ok (m.made now) := by
  rfl

/-- Whenever a description is read from its written form, it is made of its own fields. -/
theorem read_write (hm : m.toValue.isJson) (hl : layout.isSpaced) (later : String) :
    read later (m.write layout) = .ok (m.made later) := by
  have hread : Json.read (Json.write layout m.toValue ++ "") = .ok m.toValue :=
    Json.read_write hl hm rfl
  rw [String.append_empty] at hread
  unfold read write
  rw [hread]
  exact ofValue_toValue later m

structure IsMade (m : Metadata) : Prop where
  isJson : m.toValue.isJson
  isSet : m.timestamp.isSet
  hasParameters : m.fractalParameters ≠ .null

theorem isMade_made (hnow : now ≠ "") (h : m.toValue.isJson) : (m.made now).IsMade where
  isJson := isJson_toValue_made now h
  isSet := isSet_timeOr hnow m.timestamp
  hasParameters := by
    unfold made parametersOf
    split
    . simp
    . assumption

theorem IsMade.read_write (h : m.IsMade) (hl : layout.isSpaced) (later : String) :
    read later (m.write layout) = .ok m := by
  have hparameters : parametersOf m.fractalParameters = m.fractalParameters := by
    unfold parametersOf
    split
    . next hnull => exact absurd hnull h.hasParameters
    . rfl
  rw [Metadata.read_write h.isJson hl]
  rw [made, timeOr_of_isSet h.isSet, hparameters]

/-- A description is read back from its written form, whenever that happens. -/
theorem read_write_made (hnow : now ≠ "") (hm : m.toValue.isJson) (hl : layout.isSpaced)
    (later : String) : read later ((m.made now).write layout) = .ok (m.made now) := by
  have hmade : (m.made now).IsMade := isMade_made hnow hm
  exact hmade.read_write hl later

def levySample : Metadata where
  fractalType := .text "L\u00e9vy \"C\""
  iterations := .int 12
  symbolCount := .int 4096
  segmentCount := .int 4096
  resolution := [.int 640, .float 480.5]
  bounds := [.float (-0.25), .float 1e22, .float 5e-324, .float (1.0 / 0.0)]
  renderTimeSeconds := .float 0.1
  timestamp := .text ""
  softwareVersion := .text version
  fractalParameters := .object [("angle", .float 45.0), ("rules", .list [.null, .bool true, .object []])]

theorem read_write_made_levySample :
    "2024-05-01T12:00:00" ≠ "" ∧ levySample.toValue.isJson = true ∧ Metadata.layout.isSpaced = true ∧
      read "2025-01-01T00:00:00" ((levySample.made "2024-05-01T12:00:00").write Metadata.layout)
        =
      .ok (levySample.made "2024-05-01T12:00:00") := by
  have hnow : "2024-05-01T12:00:00" ≠ "" := by decide
  have hm : levySample.toValue.isJson = true := by decide +kernel
  have hl : Metadata.layout.isSpaced = true := by decide
  exact ⟨hnow, hm, hl, read_write_made hnow hm hl "2025-01-01T00:00:00"⟩

end Metadata
end TurtleCurves
