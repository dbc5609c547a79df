import TurtleCurves.Proofs.Settings.File
import TurtleCurves.Proofs.Settings.Layers
import TurtleCurves.Proofs.Settings.Variable

/-!
This module contains the precedence of settings. An option of the command line prevails over the variable
of its field, the variable over what the file states, and that over the usual value; nothing else matters
for a field.
-/

namespace TurtleCurves
namespace Settings

/-- What a value becomes for a field: of a color the channels are read as whole numbers. -/
inductive ReadsAs (field : Field) (value : Value) : Value → Prop
  | color {usual items : List Value} {channels : List Int} (husual : ({} : Settings).get field = .list usual)
      (hitems : value.elements = .ok items) (hchannels : items.mapM Value.toInt = .ok channels) :
      ReadsAs field value (.list (channels.map .int))
  | plain (hplain : ∀ usual, ({} : Settings).get field ≠ .list usual) : ReadsAs field value value

/-- The value that a field has, given the data of a file, the environment and the options. -/
inductive Prevails (data : Fields) (environment : Environment) (overrides : List (Field × Int))
    (field : Field) : Value → Prop
  | option {n : Int} (hoption : overrides.reverse.lookup field = some n) :
      Prevails data environment overrides field (.int n)
  | fromVariable {text : String} {value : Value} (hoption : overrides.reverse.lookup field = none)
      (hvariable : environment.textOf? field = some text)
      (hvalue : Environment.Means field text value) :
      Prevails data environment overrides field value
  | fromFile {value read : Value} (hoption : overrides.reverse.lookup field = none)
      (hvariable : environment.textOf? field = none) (hdata : data.get? field.name = some value)
      (hread : ReadsAs field value read) : Prevails data environment overrides field read
  | usual (hoption : overrides.reverse.lookup field = none) (hvariable : environment.textOf? field = none)
      (hdata : data.get? field.name = none) :
      Prevails data environment overrides field (({} : Settings).get field)

variable {data : Fields} {environment : Environment} {overrides : List (Field × Int)} {s : Settings}
variable {field : Field} {value : Value}

theorem readsAs_of_readColor {read : Value} (hcolor : field.reading = .color)
    (h : readColor value = .ok read) : ReadsAs field value read := by
  unfold readColor at h
  simp only [Result.bind_eq_ok] at h
  obtain ⟨items, hitems, channels, hchannels, ⟨⟩⟩ := h
  obtain ⟨usual, husual⟩ := Environment.reading_eq_color_iff.1 hcolor
  exact .color husual hitems hchannels

theorem exists_stated (hcolors : HasColors data) (h : data.get? field.name = some value) :
    ∃ read, stated data field = some read ∧ ReadsAs field value read := by
  unfold stated
  split
  . next hcolor =>
    obtain ⟨read, hread⟩ := hcolors field (mem_colors.2 hcolor) value h
    refine ⟨read, ?_, readsAs_of_readColor hcolor hread⟩
    rw [h, Option.bind_some, hread]
    rfl
  . next hplain =>
    refine ⟨value, h, .plain fun usual husual => hplain ?_⟩
    exact Environment.reading_eq_color_iff.2 ⟨usual, husual⟩

theorem stated_eq_none (h : data.get? field.name = none) : stated data field = none := by
  unfold stated
  rw [h]
  split <;> rfl

theorem prevails_overlay (hcolors : HasColors data) (hparses : environment.Parses) (field : Field) :
    Prevails data environment overrides field
      ((((overlay {} (stated data)).overlay environment.given).overlay (chosen overrides)).get field) := by
  simp only [get_overlay]
  cases hoption : overrides.reverse.lookup field with
  | some n =>
    simp only [chosen, hoption, Option.map_some, Option.getD_some]
    exact .option hoption
  | none =>
    simp only [chosen, hoption, Option.map_none, Option.getD_none]
    cases hvariable : environment.textOf? field with
    | some text =>
      obtain ⟨value, hvalue⟩ := hparses field text hvariable
      simp only [Environment.given, hvariable, Option.bind_some, hvalue, Option.getD_some]
      exact .fromVariable hoption hvariable (Environment.readValue?_eq_some_iff.1 hvalue)
    | none =>
      simp only [Environment.given, hvariable, Option.bind_none, Option.getD_none]
      cases hdata : data.get? field.name with
      | some value =>
        obtain ⟨read, hstated, hread⟩ := exists_stated hcolors hdata
        rw [hstated]
        exact .fromFile hoption hvariable hdata hread
      | none =>
        rw [stated_eq_none hdata]
        exact .usual hoption hvariable hdata

end Settings

namespace Command
namespace Surroundings

open Settings

variable {s : Surroundings} {store : Store} {config : Option String} {overrides : List (Field × Int)}
variable {settings : Settings}

theorem settings_eq_ok_iff :
    s.settings store config overrides = .ok settings ↔
      ∃ data accepted, dataOf store config = .ok data ∧ ofValue (.object data) = .ok accepted ∧
        s.environment.Parses ∧ (accepted.overlay s.environment.given).validate = .ok () ∧
        settings = (accepted.overlay s.environment.given).overlay (chosen overrides) ∧
        settings.validate = .ok () := by
  unfold Surroundings.settings
  simp only [Result.bind_eq_ok, assemble_eq_ok_iff, applyEnvironment_eq_ok_iff, setAll_eq_overlay]
  constructor
  . rintro ⟨base, ⟨data, accepted, hdata, haccepted, ⟨hparses, rfl⟩, hbase⟩, _, hvalid, ⟨⟩⟩
    exact ⟨data, accepted, hdata, haccepted, hparses, hbase, rfl, hvalid⟩
  . rintro ⟨data, accepted, hdata, haccepted, hparses, hbase, rfl, hvalid⟩
    exact ⟨_, ⟨data, accepted, hdata, haccepted, ⟨hparses, rfl⟩, hbase⟩, (), hvalid, rfl⟩

theorem settings_eq_ok (h : s.settings store config overrides = .ok settings) :
    ∃ data, dataOf store config = .ok data ∧ HasColors data ∧ s.environment.Parses ∧
      settings = ((overlay {} (stated data)).overlay s.environment.given).overlay (chosen overrides) ∧
      settings.validate = .ok () := by
  obtain ⟨data, accepted, hdata, haccepted, hparses, -, hsettings, hvalid⟩ := settings_eq_ok_iff.1 h
  obtain ⟨rfl, -⟩ := eq_overlay_of_ofValue (nodup_of_dataOf hdata) haccepted
  obtain ⟨read, hread, -, -⟩ := ofValue_eq_ok haccepted
  exact ⟨data, hdata, hasColors_iff.2 ⟨read, hread⟩, hparses, hsettings, hvalid⟩

/--
Each field of the settings of a run has the value that prevails. Whatever run agrees on the option, the
variable and the name of a field agrees on its value.
-/
theorem settings_by_precedence (h : s.settings store config overrides = .ok settings) :
    ∃ data, dataOf store config = .ok data ∧
      (∀ field, Prevails data s.environment overrides field (settings.get field)) ∧
      (∀ (s' : Surroundings) (store' : Store) (config' : Option String) (overrides' : List (Field × Int))
        (settings' : Settings) (data' : Fields),
        s'.settings store' config' overrides' = .ok settings' → dataOf store' config' = .ok data' →
          ∀ field, overrides'.reverse.lookup field = overrides.reverse.lookup field →
            s'.environment.textOf? field = s.environment.textOf? field →
            data'.get? field.name = data.get? field.name → settings'.get field = settings.get field) ∧
      settings.validate = .ok () := by
  obtain ⟨data, hdata, hcolors, hparses, hsettings, hvalid⟩ := settings_eq_ok h
  refine ⟨data, hdata, ?_, ?_, hvalid⟩
  . intro field
    rw [hsettings]
    exact prevails_overlay hcolors hparses field
  . intro s' store' config' overrides' settings' data' h' hdata' field hoption hvariable hname
    obtain ⟨data'', hdata'', -, -, hsettings', -⟩ := settings_eq_ok h'
    cases hdata'.symm.trans hdata''
    rw [hsettings, hsettings']
    simp only [get_overlay, chosen, Environment.given, stated, hoption, hvariable, hname]

def layeredData : Fields :=
  [("width", .int 300), ("height", .float 480.5), ("line_width", .int 2), ("save_metadata", .bool false),
   ("background", .list [.float 1.5, .text " 7 ", .bool true, .int 255])]

def layeredStore : Store :=
  holding (.ofText "c") (.object [("width", .int 1), ("render", .object layeredData)])

def layeredTexts : List (Field × String) :=
  [(.width, "2000"), (.height, " +500 "), (.saveMetadata, " Yes "), (.gradientEnd, "9, 1_0,+11,255")]

def layeredRun : Surroundings where
  catalogue := Catalogue.builtIn
  environment := [("HEIGHT", "1"), ("LSYSTEM_FRACTAL_WIDTH", "2000"), ("LSYSTEM_FRACTAL_HEIGHT", " +500 "),
    ("LSYSTEM_FRACTAL_SAVE_METADATA", " Yes "), ("LSYSTEM_FRACTAL_GRADIENT_END", "9, 1_0,+11,255")]
  moment := ⟨"", 0⟩

def layeredOptions : List (Field × Int) :=
  [(.width, 900), (.margin, 3), (.width, 640)]

def layeredSettings : Settings where
  width := .int 640
  height := .int 500
  margin := .int 3
  lineWidth := .int 2
  background := .list [.int 1, .int 7, .int 1, .int 255]
  gradientEnd := .list [.int 9, .int 10, .int 11, .int 255]
  saveMetadata := .bool true

theorem dataOf_layered : dataOf layeredStore (some "c") = .ok layeredData := by
  have hname : FileName.ofText "c" = ⟨["c"], false⟩ := by cbv
  exact dataOf_holding (by decide) (by simp [hname]) (by decide +kernel)

theorem textOf?_layered (field : Field) :
    layeredRun.environment.textOf? field = layeredTexts.lookup field := by
  have hnamed : layeredRun.environment = ("HEIGHT", "1") :: Environment.ofTexts layeredTexts := by
    decide +kernel
  have hname : "HEIGHT" ≠ Environment.variableName Environment.lead field := by
    cases field <;> decide +kernel
  rw [← Environment.textOf?_ofTexts, hnamed]
  exact Environment.textOf?_cons_of_ne hname

theorem settings_layered :
    layeredRun.settings layeredStore (some "c") layeredOptions = .ok layeredSettings := by
  have hparses : layeredRun.environment.Parses :=
    Environment.parses_of_lookup textOf?_layered (by decide +kernel)
  rw [settings_eq_ok_iff, Environment.given_of_lookup textOf?_layered]
  exact ⟨layeredData, _, dataOf_layered, ofValue_of_isKnown (by decide) rfl rfl rfl, hparses, rfl, rfl, rfl⟩

theorem settings_by_precedence_layered :
    layeredRun.settings layeredStore (some "c") layeredOptions = .ok layeredSettings ∧
      ∃ data, dataOf layeredStore (some "c") = .ok data ∧
        (∀ field, Prevails data layeredRun.environment layeredOptions field (layeredSettings.get field)) ∧
        layeredSettings.validate = .ok () := by
  obtain ⟨data, hdata, hprevails, -, hvalid⟩ := settings_by_precedence settings_layered
  exact ⟨settings_layered, data, hdata, hprevails, hvalid⟩

end Surroundings
end Command
end TurtleCurves
