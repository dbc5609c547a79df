import TurtleCurves.Curve.Scripted
import TurtleCurves.Proofs.Fault
import TurtleCurves.Proofs.Renderer
import TurtleCurves.Proofs.Store.Basic

/-!
This module contains what a render leaves of the store if it fails. Everything that can be refused is looked
at before the first directory is made, so that a refusal leaves every file and every directory as it was.
-/

namespace TurtleCurves

variable {store after : Store} {name : FileName} {fault : Fault}

namespace Svg

variable {path : Path Float} {settings : Settings} {title precision : Value}

theorem perform_save_of_error (h : lines path settings title precision = .error fault) (store : Store)
    (name : FileName) : (save path name settings title precision).perform store = (.error fault, store) := by
  apply Task.perform_bind_error
  rw [h]
  rfl

theorem perform_save_eq_error
    (h : (save path name settings title precision).perform store = (.error fault, after)) :
    after = store ∨ fault = .isDirectory := by
  unfold save at h
  rcases Task.perform_bind_eq_error h with hlines | ⟨ls, between, hlines, hrest⟩
  . rw [Task.perform_ofResult] at hlines
    exact .inl (congrArg Prod.snd hlines).symm
  obtain ⟨-, rfl⟩ := Task.perform_ofResult_eq_ok hlines
  rcases Task.perform_bind_eq_error hrest with hparents | ⟨_, made, -, hwrite⟩
  . exact .inl (Store.perform_makeParents_eq_error hparents)
  . exact .inr (Store.perform_write_eq_error hwrite)

end Svg

namespace Picture

variable {p : Picture} {metadata : Option Metadata} {quality : Value}

theorem perform_save_of_unsupported (h : Format.ofSuffix.get? name.suffix = none) (p : Picture)
    (metadata : Option Metadata) (quality : Value) (store : Store) :
    (p.save name metadata quality).perform store
      =
    (.error (.unsupportedFormat name.suffix (suffixes ++ [drawingSuffix])), store) := by
  unfold save
  rw [h]
  rfl

theorem perform_savePng_eq_error (hnotes : ∀ m, metadata = some m → ∃ texts, notes m = .ok texts)
    (h : (p.savePng name metadata).perform store = (.error fault, after)) : fault = .isDirectory := by
  unfold savePng at h
  cases metadata with
  | none => exact Store.perform_write_eq_error h
  | some m =>
    obtain ⟨texts, htexts⟩ := hnotes m rfl
    rcases Task.perform_bind_eq_error h with hperformed | ⟨_, between, -, hwrite⟩
    . simp only [htexts] at hperformed
      cases hperformed
    . exact Store.perform_write_eq_error hwrite

theorem perform_saveJpeg_eq_error
    (h : (p.saveJpeg name metadata quality).perform store = (.error fault, after)) :
    checkQuality quality = .error fault ∨ fault = .isDirectory := by
  unfold saveJpeg at h
  rcases Task.perform_bind_eq_error h with hchecked | ⟨_, checked, -, hwrites⟩
  . rw [Task.perform_ofResult] at hchecked
    exact .inl (congrArg Prod.fst hchecked)
  rcases Task.perform_bind_eq_error hwrites with hpicture | ⟨_, between, -, hdescription⟩
  . exact .inr (Store.perform_write_eq_error hpicture)
  . cases metadata with
    | none => cases hdescription
    | some m => exact .inr (Store.perform_write_eq_error hdescription)

theorem perform_save_eq_error (hnotes : ∀ m, metadata = some m → ∃ texts, notes m = .ok texts)
    (h : (p.save name metadata quality).perform store = (.error fault, after)) :
    after = store ∨ fault = .isDirectory ∨
      Format.ofSuffix.get? name.suffix = some .jpeg ∧ checkQuality quality = .error fault := by
  unfold save at h
  split at h
  . cases h
    exact .inl rfl
  . next format hformat =>
    rcases Task.perform_bind_eq_error h with hparents | ⟨_, made, -, hsaved⟩
    . exact .inl (Store.perform_makeParents_eq_error hparents)
    . cases format with
      | png => exact .inr (.inl (perform_savePng_eq_error hnotes hsaved))
      | jpeg =>
        rcases perform_saveJpeg_eq_error hsaved with hquality | hdirectory
        . exact .inr (.inr ⟨hformat, hquality⟩)
        . exact .inr (.inl hdirectory)

end Picture

namespace Renderer

variable {r left : Renderer} {c : Curve} {moment : Moment} {path : Path Float} {raster : Raster}

theorem settings_trace {ω : Type} (r : Renderer) (watcher : Watcher ω) (notes : ω) (c : Curve) :
    (r.trace watcher notes c).renderer.settings = r.settings := by
  unfold trace
  split
  . rfl
  . dsimp
    split <;> rfl

theorem exists_notes_of_describe {m : Metadata} (h : r.describe moment c path = .ok m) :
    ∃ texts, Picture.notes m = .ok texts := by
  -- A description is timed by a text, so that a picture can carry it.
  unfold describe at h
  rw [Result.bind_eq_ok] at h
  obtain ⟨bounds, -, h⟩ := h
  cases h
  exact ⟨_, rfl⟩

def description (r : Renderer) (moment : Moment) (c : Curve) (path : Path Float) : Result (Option Metadata) :=
  if r.settings.saveMetadata.isSet then some <$> r.describe moment c path else .ok none

theorem exists_notes_of_description {metadata : Option Metadata}
    (h : r.description moment c path = .ok metadata) (m : Metadata) (hm : metadata = some m) :
    ∃ texts, Picture.notes m = .ok texts := by
  subst hm
  unfold description at h
  split at h
  . cases hdescribe : r.describe moment c path with
    | error fault =>
      rw [hdescribe] at h
      cases h
    | ok described =>
      rw [hdescribe] at h
      cases h
      exact exists_notes_of_describe hdescribe
  . cases h

theorem save_eq (h : name.suffix ≠ Picture.drawingSuffix) :
    r.save moment c path raster name
      =
    (do
      let metadata ← Task.ofResult (r.description moment c path)
      raster.picture.save name metadata r.settings.jpegQuality) := by
  unfold save description
  rw [if_neg h]
  split
  . cases r.describe moment c path <;> rfl
  . rfl

theorem perform_save_eq_error
    (h : (r.save moment c path raster name).perform store = (.error fault, after)) :
    after = store ∨ fault = .isDirectory ∨
      Picture.Format.ofSuffix.get? name.suffix = some .jpeg ∧
        Picture.checkQuality r.settings.jpegQuality = .error fault := by
  by_cases hsuffix : name.suffix = Picture.drawingSuffix
  . unfold save at h
    rw [if_pos hsuffix] at h
    rcases Svg.perform_save_eq_error h with hsame | hdirectory
    . exact .inl hsame
    . exact .inr (.inl hdirectory)
  . rw [save_eq hsuffix] at h
    rcases Task.perform_bind_eq_error h with hdescribed | ⟨metadata, between, hdescribed, hsaved⟩
    . rw [Task.perform_ofResult] at hdescribed
      exact .inl (congrArg Prod.snd hdescribed).symm
    . obtain ⟨hdescription, rfl⟩ := Task.perform_ofResult_eq_ok hdescribed
      exact Picture.perform_save_eq_error (exists_notes_of_description hdescription) hsaved

theorem perform_save_of_lines_error (hsuffix : name.suffix = Picture.drawingSuffix)
    (h : Svg.lines path r.settings (.text c.description) (.int Svg.usualPrecision) = .error fault)
    (store : Store) : (r.save moment c path raster name).perform store = (.error fault, store) := by
  unfold save
  rw [if_pos hsuffix]
  exact Svg.perform_save_of_error h store name

theorem perform_save_of_unsupported (hsuffix : name.suffix ≠ Picture.drawingSuffix)
    (h : Picture.Format.ofSuffix.get? name.suffix = none) (store : Store) :
    ∃ fault, (r.save moment c path raster name).perform store = (.error fault, store) := by
  rw [save_eq hsuffix]
  cases hdescription : r.description moment c path with
  | error fault => exact ⟨fault, Task.perform_bind_error (Task.perform_ofResult _ store) _⟩
  | ok metadata =>
    rw [Task.perform_bind_ok (Task.perform_ofResult _ store)]
    exact ⟨_, Picture.perform_save_of_unsupported h ..⟩

theorem perform_finish_eq_error
    (h : (r.finish moment c path (some name)).perform store = (.error fault, after)) :
    after = store ∨ ∃ raster, (r.save moment c path raster name).perform store = (.error fault, after) := by
  unfold finish at h
  rcases Task.perform_bind_eq_error h with hraster | ⟨raster, between, hraster, hrest⟩
  . rw [Task.perform_ofResult] at hraster
    exact .inl (congrArg Prod.snd hraster).symm
  obtain ⟨-, rfl⟩ := Task.perform_ofResult_eq_ok hraster
  rcases Task.perform_bind_eq_error hrest with hsaved | ⟨_, saved, -, hdone⟩
  . exact .inr ⟨raster, hsaved⟩
  . cases hdone

theorem perform_finish_of_save
    (h : ∀ raster, ∃ fault, (r.save moment c path raster name).perform store = (.error fault, store)) :
    ∃ fault, (r.finish moment c path (some name)).perform store = (.error fault, store) := by
  unfold finish
  cases hraster : Raster.ofPath path r.settings with
  | error fault => exact ⟨fault, Task.perform_bind_error (Task.perform_ofResult _ store) _⟩
  | ok raster =>
    obtain ⟨fault, hsave⟩ := h raster
    rw [Task.perform_bind_ok (Task.perform_ofResult _ store)]
    exact ⟨fault, Task.perform_bind_error hsave _⟩

theorem run_render_of_error (h : (r.trace Watcher.idle () c).result = .error fault) (moment : Moment)
    (name : Option FileName) (store : Store) :
    (r.render moment c name).run store = (((r.trace Watcher.idle () c).renderer, .error fault), store) := by
  unfold render
  dsimp only
  rw [h]
  rfl

theorem run_render_of_ok (h : (r.trace Watcher.idle () c).result = .ok path) (moment : Moment)
    (name : Option FileName) (store : Store) :
    (r.render moment c name).run store
      =
    (((r.trace Watcher.idle () c).renderer,
      (((r.trace Watcher.idle () c).renderer.finish moment c path name).perform store).1),
      (((r.trace Watcher.idle () c).renderer.finish moment c path name).perform store).2) := by
  unfold render
  dsimp only
  rw [h]
  rfl

/--
A render that is refused for its length, for the suffix of its file or as a drawing fails and leaves the store
as it was. However a render fails, only two faults can come after the first change: that there is a directory
under the name of a file that is written, and that a picture with loss has no such quality.
-/
theorem refusals_keep_store (r : Renderer) (moment : Moment) (c : Curve) (name : FileName) (store : Store) :
    (∀ fault, r.checkSize c = .error fault →
      (r.render moment c (some name)).run store = ((r, .error fault), store)) ∧
    (name.suffix ≠ Picture.drawingSuffix → Picture.Format.ofSuffix.get? name.suffix = none →
      ∃ left fault, (r.render moment c (some name)).run store = ((left, .error fault), store)) ∧
    (name.suffix = Picture.drawingSuffix → ∀ path, (r.trace Watcher.idle () c).result = .ok path →
      ∀ fault, Svg.lines path r.settings (.text c.description) (.int Svg.usualPrecision) = .error fault →
        ∃ left fault, (r.render moment c (some name)).run store = ((left, .error fault), store)) ∧
    ∀ left fault after, (r.render moment c (some name)).run store = ((left, .error fault), after) →
      after = store ∨ fault = .isDirectory ∨
        Picture.Format.ofSuffix.get? name.suffix = some .jpeg ∧
          Picture.checkQuality r.settings.jpegQuality = .error fault := by
  have hsettings := r.settings_trace Watcher.idle () c
  refine ⟨fun fault hfault => ?_, fun hsuffix hformat => ?_, fun hsuffix path hpath fault hlines => ?_,
    fun left fault after hrun => ?_⟩
  . have htrace := trace_of_checkSize_error hfault Watcher.idle ()
    rw [run_render_of_error (congrArg Traced.result htrace), htrace]
  . cases hpath : (r.trace Watcher.idle () c).result with
    | error fault => exact ⟨_, fault, run_render_of_error hpath moment _ store⟩
    | ok path =>
      obtain ⟨fault, hfinish⟩ :=
        perform_finish_of_save fun raster => perform_save_of_unsupported hsuffix hformat store
      rw [run_render_of_ok hpath, hfinish]
      exact ⟨_, fault, rfl⟩
  . rw [← hsettings] at hlines
    obtain ⟨fault, hfinish⟩ :=
      perform_finish_of_save fun raster => ⟨fault, perform_save_of_lines_error hsuffix hlines store⟩
    rw [run_render_of_ok hpath, hfinish]
    exact ⟨_, fault, rfl⟩
  . cases hpath : (r.trace Watcher.idle () c).result with
    | error refused =>
      rw [run_render_of_error hpath] at hrun
      exact .inl (congrArg Prod.snd hrun).symm
    | ok path =>
      rw [run_render_of_ok hpath] at hrun
      obtain ⟨hleft, rfl⟩ := Prod.ext_iff.1 hrun
      have hfault := congrArg Prod.snd hleft
      rcases perform_finish_eq_error (Prod.ext hfault rfl) with hsame | ⟨raster, hsave⟩
      . exact .inl hsame
      . rw [← hsettings]
        exact perform_save_eq_error hsave

def silentScript : Script where
  name := "Silent"
  alphabetName := "Silence"
  tokens := ["F"]
  seed := ["F", "F"]
  productions := []
  moves := []
  opening := []
  limit := none
  fixedDepth := none

theorem silentScript_closed : silentScript.definition.grammar.Closed := by
  rw [← Grammar.fault?_eq_none_iff]
  decide

/-- A limit of one symbol, an unknown suffix and a path without extent leave the file that is there. -/
theorem refusals_keep_store_silent :
    let moment : Moment := ⟨"2024-01-01T00:00:00", 0⟩
    let c : Curve := ⟨silentScript.definition, 0, silentScript_closed⟩
    let store : Store := ⟨[(⟨["kept.svg"], false⟩, .file (.text "kept"))]⟩
    (∃ fault, (({ settings := { maxSymbols := .int 1 } } : Renderer).render moment c
        (some ⟨["new", "kept.png"], false⟩)).run store
      = (({ settings := { maxSymbols := .int 1 } }, .error fault), store)) ∧
    (∃ left fault, (({ settings := {} } : Renderer).render moment c
        (some ⟨["new", "kept.gif"], false⟩)).run store = ((left, .error fault), store)) ∧
    ∃ left fault, (({ settings := { margin := .int 0 } } : Renderer).render moment c
        (some ⟨["kept.svg"], false⟩)).run store = ((left, .error fault), store) := by
  intro moment c store
  refine ⟨⟨_, (refusals_keep_store _ moment c _ store).1 _ rfl⟩, ?_, ?_⟩
  . exact (refusals_keep_store _ moment c _ store).2.1 (by decide) rfl
  . exact (refusals_keep_store _ moment c _ store).2.2.1 rfl ⟨#[#[⟨0, 0⟩]]⟩ rfl _ rfl

end Renderer
end TurtleCurves
