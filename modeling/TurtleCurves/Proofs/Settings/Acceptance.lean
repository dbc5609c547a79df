import TurtleCurves.Proofs.Settings.Layers

/-!
This module contains which settings are accepted from a file and an environment. The rules are checked
twice: on the usual settings with what the file states, and once more with the environment upon them. What
the environment gives is therefore never looked at alone, but what the file states is.
-/

namespace TurtleCurves
namespace Settings

variable {store : Store} {file : Option String} {environment : Environment} {data : Fields}

/--
If the names of a file are known, its colors can be read and so can the variables, then settings come
about exactly if the rules hold with the file alone and with the environment upon it.
-/
theorem assemble_accepts_iff (hdata : dataOf store file = .ok data)
    (hnames : ∀ name ∈ data.keys, isKnown name) (hcolors : HasColors data) (hparses : environment.Parses) :
    ((∃ s, assemble store file environment = .ok s) ↔
      (overlay {} (stated data)).validate = .ok () ∧
        ((overlay {} (stated data)).overlay environment.given).validate = .ok ()) ∧
      ∀ s, assemble store file environment = .ok s →
        s = (overlay {} (stated data)).overlay environment.given := by
  have hiff : ∀ s, assemble store file environment = .ok s ↔
      (overlay {} (stated data)).validate = .ok () ∧
        s = (overlay {} (stated data)).overlay environment.given ∧ s.validate = .ok () := by
    intro s
    rw [assemble_eq_ok_iff]
    constructor
    . rintro ⟨data', read, hdata', hread, henvironment, hvalid⟩
      cases hdata.symm.trans hdata'
      obtain ⟨rfl, hfirst⟩ := eq_overlay_of_ofValue (nodup_of_dataOf hdata) hread
      exact ⟨hfirst, (applyEnvironment_eq_ok_iff.1 henvironment).2, hvalid⟩
    . rintro ⟨hfirst, hs, hvalid⟩
      have hread := (ofValue_eq_ok_iff_of_isKnown (nodup_of_dataOf hdata) hnames hcolors).2 ⟨rfl, hfirst⟩
      exact ⟨data, _, hdata, hread, applyEnvironment_eq_ok_iff.2 ⟨hparses, hs⟩, hvalid⟩
  constructor
  . constructor
    . rintro ⟨s, hs⟩
      obtain ⟨hfirst, rfl, hvalid⟩ := (hiff s).1 hs
      exact ⟨hfirst, hvalid⟩
    . rintro ⟨hfirst, hvalid⟩
      exact ⟨_, (hiff _).2 ⟨hfirst, rfl, hvalid⟩⟩
  . intro s hs
    exact ((hiff s).1 hs).2.1

def largeData : Fields :=
  [("width", .int 2000), ("height", .int 2000)]

def wideData : Fields :=
  [("margin", .int 600)]

def largeTexts : List (Field × String) :=
  [(.width, "2000"), (.height, "2000")]

def wideTexts : List (Field × String) :=
  [(.margin, "600")]

def sectionStore (data : Fields) : Store :=
  holding (.ofText "c") (.object [(sectionName, .object data)])

def wideAndLarge : Settings where
  width := .int 2000
  height := .int 2000
  margin := .int 600

theorem dataOf_sectionStore (hdata : (Value.object data).isJson) :
    dataOf (sectionStore data) (some "c") = .ok data := by
  have hname : FileName.ofText "c" = ⟨["c"], false⟩ := by cbv
  have hdocument : (Value.object [(sectionName, .object data)]).isJson := by
    simpa [Value.isJson, Value.haveJson, Entries.keys] using hdata
  exact dataOf_holding (by decide) (by simp [hname]) hdocument

theorem hasColors_of_none (h : ∀ field ∈ Field.colors, data.get? field.name = none) : HasColors data := by
  intro field hfield color hcolor
  rw [h field hfield] at hcolor
  cases hcolor

/-- A margin of the environment that fits only with the size of the file is accepted. -/
theorem assemble_accepts_iff_wide :
    dataOf (sectionStore largeData) (some "c") = .ok largeData ∧
      (∀ name ∈ largeData.keys, isKnown name) ∧ HasColors largeData ∧ (Environment.ofTexts wideTexts).Parses ∧
      (overlay {} (Environment.ofTexts wideTexts).given).validate = .error (.settings .noRoom) ∧
      assemble (sectionStore largeData) (some "c") (.ofTexts wideTexts) = .ok wideAndLarge := by
  have hdata : dataOf (sectionStore largeData) (some "c") = .ok largeData :=
    dataOf_sectionStore (by decide +kernel)
  have hnames : ∀ name ∈ largeData.keys, isKnown name := by decide
  have hcolors : HasColors largeData := hasColors_of_none (by decide)
  have hgiven := Environment.given_of_lookup (Environment.textOf?_ofTexts wideTexts)
  have hparses : (Environment.ofTexts wideTexts).Parses :=
    Environment.parses_of_lookup (Environment.textOf?_ofTexts wideTexts) (by decide)
  have hmerged :
      (overlay {} (stated largeData)).overlay (Environment.ofTexts wideTexts).given = wideAndLarge := by
    rw [hgiven]
    rfl
  have haccepts := assemble_accepts_iff hdata hnames hcolors hparses
  rw [hmerged] at haccepts
  refine ⟨hdata, hnames, hcolors, hparses, ?_, ?_⟩
  . rw [hgiven]
    rfl
  . obtain ⟨s, hs⟩ := haccepts.1.2 ⟨rfl, rfl⟩
    rw [hs, haccepts.2 s hs]

/-- A margin of the file that fits only with the size of the environment is refused. -/
theorem wide_file_refused :
    dataOf (sectionStore wideData) (some "c") = .ok wideData ∧
      (∀ name ∈ wideData.keys, isKnown name) ∧ HasColors wideData ∧ (Environment.ofTexts largeTexts).Parses ∧
      ((overlay {} (stated wideData)).overlay (Environment.ofTexts largeTexts).given).validate = .ok () ∧
      assemble (sectionStore wideData) (some "c") (.ofTexts largeTexts) = .error (.settings .noRoom) := by
  have hdata : dataOf (sectionStore wideData) (some "c") = .ok wideData :=
    dataOf_sectionStore (by decide +kernel)
  have hnames : ∀ name ∈ wideData.keys, isKnown name := by decide
  have hcolors : HasColors wideData := hasColors_of_none (by decide)
  have hgiven := Environment.given_of_lookup (Environment.textOf?_ofTexts largeTexts)
  have hparses : (Environment.ofTexts largeTexts).Parses :=
    Environment.parses_of_lookup (Environment.textOf?_ofTexts largeTexts) (by decide)
  refine ⟨hdata, hnames, hcolors, hparses, ?_, ?_⟩
  . rw [hgiven]
    rfl
  . rw [assemble_eq, hdata]
    change ofValue (.object wideData) >>= _ = _
    rw [ofValue_eq_of_isKnown hnames rfl rfl]
    rfl

end Settings
end TurtleCurves
