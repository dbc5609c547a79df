import TurtleCurves.Command.Program
import TurtleCurves.Curve.Scripted
import TurtleCurves.Proofs.Curve.Construction
import TurtleCurves.Proofs.Fault
import TurtleCurves.Proofs.Number
import TurtleCurves.Proofs.Renderer

/-!
This module contains when the command line prints an expansion. The limit on symbols is held against the
depth that the curve itself asks for, while what is printed is the expansion to the depth that was asked
for on the command line. So the limit holds for the families that leave the depth to whoever asks.
-/

namespace TurtleCurves

theorem Settings.exists_maximum_of_validate {settings : Settings} (h : settings.validate = .ok ()) :
    ∃ maximum, settings.maxSymbols.toNumber = .ok maximum := by
  unfold validate at h
  simp only [Result.bind_eq_ok] at h
  obtain ⟨-, -, -, -, -, -, -, -, _, -, _, hcheck, -⟩ := h
  unfold checkMaxSymbols at hcheck
  rw [Result.bind_eq_ok] at hcheck
  obtain ⟨maximum, hmaximum, -⟩ := hcheck
  exact ⟨maximum, hmaximum⟩

namespace Command
namespace Surroundings

variable {s : Surroundings} {store : Store} {config : Option String} {curve : String} {iterations : Int}
variable {overrides : List (Settings.Field × Int)} {c : Curve} {r : Renderer}
variable {invocation : Invocation}

def excerpt (limit : Option Int) (word : List Symbol) : String :=
  let shown := match limit with
    | some limit => word.take limit.toNat
    | none => word
  Symbol.textOf shown ++ if shown.length < word.length then "..." else ""

def linesOf (limit : Option Int) (word : List Symbol) : List Line :=
  [.text (excerpt limit word), .text ("length: " ++ toString word.length)]

theorem prepare_eq_ok (h : s.prepare store config overrides curve iterations = .ok (c, r)) :
    (∃ family, s.catalogue.find curve = .ok family ∧ family.make (.int iterations) = .ok c) ∧
      iterations = c.iterations ∧ s.settings store config overrides = .ok r.settings ∧
      r.settings.validate = .ok () := by
  unfold prepare at h
  simp only [Result.bind_eq_ok] at h
  obtain ⟨settings, hsettings, made, hmade, renderer, hrenderer, h⟩ := h
  cases h
  unfold Renderer.ofSettings at hrenderer
  rw [Result.bind_eq_ok] at hrenderer
  obtain ⟨_, hvalid, hrenderer⟩ := hrenderer
  cases hrenderer
  unfold Catalogue.create at hmade
  rw [Result.bind_eq_ok] at hmade
  obtain ⟨family, hfind, hmake⟩ := hmade
  have hcount := family.count_of_make hmake
  injection hcount with hcount
  exact ⟨⟨family, hfind, hmake⟩, hcount, hsettings, hvalid⟩

theorem prepare_of_find {settings : Settings} {family : Family}
    (hsettings : s.settings store config overrides = .ok settings)
    (hfind : s.catalogue.find curve = .ok family) (hmake : family.make (.int iterations) = .ok c) :
    s.prepare store config overrides curve iterations = .ok (c, { settings }) := by
  have hvalid : settings.validate = .ok () := by
    unfold Surroundings.settings at hsettings
    simp only [Result.bind_eq_ok] at hsettings
    obtain ⟨_, -, _, hvalid, hsettings⟩ := hsettings
    cases hsettings
    exact hvalid
  have hcreate : s.catalogue.create (.text curve) (.int iterations) = .ok c := by
    change (do (← s.catalogue.find curve).make (.int iterations)) = _
    rw [hfind]
    exact hmake
  unfold prepare Renderer.ofSettings
  rw [hsettings]
  simp only [bind, Except.bind, hcreate, hvalid]
  rfl

theorem answer_expand_of_prepare
    (h : s.prepare store invocation.config overrides curve iterations = .ok (c, r)) (limit : Option Int) :
    ((s.answer invocation (.expand curve iterations limit overrides)).run store).1 =
      match r.checkSize c with
      | .error fault => ⟨[], .failed fault⟩
      | .ok _ => ⟨linesOf limit (c.expansion c.iterations), .done⟩ := by
  obtain ⟨-, rfl, -, -⟩ := prepare_eq_ok h
  change report (s.expand store invocation.config curve c.iterations limit overrides) = _
  unfold expand
  rw [h]
  simp only [bind, Except.bind, Curve.expand_int]
  cases r.checkSize c with
  | error fault => rfl
  | ok length => rfl

theorem answer_expand_of_error {fault : Fault}
    (h : s.prepare store invocation.config overrides curve iterations = .error fault)
    (limit : Option Int) :
    ((s.answer invocation (.expand curve iterations limit overrides)).run store).1
      = ⟨[], .failed fault⟩ := by
  change report (s.expand store invocation.config curve iterations limit overrides) = _
  unfold expand
  rw [h]
  rfl

theorem exists_prepare_of_done {limit : Option Int}
    (h : ((s.answer invocation (.expand curve iterations limit overrides)).run store).1.ending = .done) :
    ∃ c r length, s.prepare store invocation.config overrides curve iterations = .ok (c, r) ∧
      r.checkSize c = .ok length := by
  cases hprepare : s.prepare store invocation.config overrides curve iterations with
  | error fault =>
    rw [answer_expand_of_error hprepare] at h
    cases h
  | ok prepared =>
    obtain ⟨c, r⟩ := prepared
    rw [answer_expand_of_prepare hprepare] at h
    cases hcheck : r.checkSize c with
    | error fault =>
      rw [hcheck] at h
      cases h
    | ok length => exact ⟨c, r, length, rfl, hcheck⟩

theorem exists_maximum_of_prepare
    (h : s.prepare store config overrides curve iterations = .ok (c, r)) :
    ∃ maximum, r.settings.maxSymbols.toNumber = .ok maximum := by
  obtain ⟨-, -, -, hvalid⟩ := prepare_eq_ok h
  exact Settings.exists_maximum_of_validate hvalid

/--
Of a family that leaves the depth to whoever asks, an expansion above the limit is refused as soon as it is
predicted, and every other one is printed. What is printed of any family tells the true length.
-/
theorem expand_within_limit (s : Surroundings) (invocation : Invocation) (store : Store) (curve : String)
    (iterations : Int) (limit : Option Int) (overrides : List (Settings.Field × Int)) :
    let report := ((s.answer invocation (.expand curve iterations limit overrides)).run store).1
    (∀ c r, s.prepare store invocation.config overrides curve iterations = .ok (c, r) →
      c.depth = .int iterations →
      ∃ word maximum, c.expand (.int iterations) = .ok word ∧
        r.settings.maxSymbols.toNumber = .ok maximum ∧
        (maximum.lt (.whole word.length) → ∃ violation,
          violation = .tooManySymbols c.name c.iterations word.length r.settings.maxSymbols ∧
          r.checkSize c = .error (.violated violation) ∧ report = ⟨[], .failed (.violated violation)⟩) ∧
        (¬maximum.lt (.whole word.length) → report = ⟨linesOf limit word, .done⟩)) ∧
    (report.ending = .done →
      ∃ c r word maximum, s.prepare store invocation.config overrides curve iterations = .ok (c, r) ∧
        c.expand (.int iterations) = .ok word ∧ r.settings.maxSymbols.toNumber = .ok maximum ∧
        report.lines = linesOf limit word ∧
        (c.depth = .int iterations → maximum.view ≠ .undefined →
          (Number.whole word.length).le maximum)) := by
  intro report
  constructor
  . intro c r hprepare hdepth
    obtain ⟨maximum, hmaximum⟩ := exists_maximum_of_prepare hprepare
    obtain ⟨-, rfl, -, -⟩ := prepare_eq_ok hprepare
    have hreport := answer_expand_of_prepare hprepare limit
    have hcheck := Renderer.checkSize_of_maximum hmaximum hdepth
    refine ⟨c.expansion c.iterations, maximum, c.expand_int _, hmaximum, ?_, ?_⟩
    . intro hlong
      rw [if_pos hlong] at hcheck
      refine ⟨_, rfl, hcheck, ?_⟩
      rw [hcheck] at hreport
      exact hreport
    . intro hshort
      rw [if_neg hshort] at hcheck
      rw [hcheck] at hreport
      exact hreport
  . intro hdone
    obtain ⟨c, r, length, hprepare, hcheck⟩ := exists_prepare_of_done hdone
    obtain ⟨maximum, hmaximum⟩ := exists_maximum_of_prepare hprepare
    obtain ⟨-, rfl, -, -⟩ := prepare_eq_ok hprepare
    have hreport := answer_expand_of_prepare hprepare limit
    rw [hcheck] at hreport
    refine ⟨c, r, c.expansion c.iterations, maximum, hprepare, c.expand_int _, hmaximum, ?_, ?_⟩
    . exact congrArg Report.lines hreport
    . intro hdepth hdefined
      apply Number.le_of_not_lt hdefined
      . intro hview
        cases hview
      . intro hlong
        rw [Renderer.checkSize_of_maximum hmaximum hdepth] at hcheck
        rw [if_pos hlong] at hcheck
        cases hcheck

theorem expand_within_limit_dragon :
    let s : Surroundings := ⟨Catalogue.builtIn, [], ⟨"", 0⟩⟩
    let c : Curve := ⟨Dragon.pattern.definition, 3, Dragon.grammar_closed⟩
    let r : Renderer := { settings := { maxSymbols := .int 10 } }
    s.prepare {} none [(.maxSymbols, 10)] "dragon" 3 = .ok (c, r) ∧
      ∃ violation, r.checkSize c = .error (.violated violation) ∧
        ((s.answer ⟨false, none, false, none⟩ (.expand "dragon" 3 none [(.maxSymbols, 10)])).run {}).1
          = ⟨[], .failed (.violated violation)⟩ := by
  intro s c r
  have hfind : s.catalogue.find "dragon" = .ok Dragon.pattern.definition.family := by
    have hlower : Text.lower "dragon" = "dragon" := by decide +kernel
    unfold Catalogue.find
    rw [hlower]
    rfl
  have hprepare : s.prepare {} none [(.maxSymbols, 10)] "dragon" 3 = .ok (c, r) :=
    prepare_of_find rfl hfind rfl
  have hwithin := expand_within_limit s ⟨false, none, false, none⟩ {} "dragon" 3 none [(.maxSymbols, 10)]
  obtain ⟨word, maximum, hword, hmaximum, hrefused, -⟩ := hwithin.1 c r hprepare rfl
  cases hmaximum
  cases hword.symm.trans (c.expand_int 3)
  obtain ⟨violation, -, hcheck, hreport⟩ := hrefused (by decide)
  exact ⟨hprepare, violation, hcheck, hreport⟩

def shallow : Script where
  name := "Shallow"
  alphabetName := "Custom"
  tokens := ["A"]
  seed := ["A"]
  productions := [("A", ["A", "A"])]
  moves := []
  opening := []
  limit := none
  fixedDepth := some (.int 1)

theorem shallow_closed : shallow.grammar.Closed := by
  rw [← Grammar.fault?_eq_none_iff]
  decide

/-- Of a family that has a depth of its own more is printed than the limit. -/
theorem shallow_printed_above_limit :
    let s : Surroundings := ⟨⟨Catalogue.builtIn.entries.put "shallow" shallow.family⟩, [], ⟨"", 0⟩⟩
    let c : Curve := ⟨shallow.definition, 3, shallow_closed⟩
    let word := List.replicate 8 (Symbol.letter "Custom" "A" "A")
    Catalogue.builtIn.register "shallow" (some shallow.family) = .ok s.catalogue ∧
      s.prepare {} none [(.maxSymbols, 5)] "shallow" 3
        = .ok (c, { settings := { maxSymbols := .int 5 } }) ∧
      c.expand (.int 3) = .ok word ∧ 5 < word.length ∧
      ((s.answer ⟨false, none, false, none⟩ (.expand "shallow" 3 none [(.maxSymbols, 5)])).run {}).1
        = ⟨[.text "AAAAAAAA", .text "length: 8"], .done⟩ := by
  intro s c word
  have hlower : Text.lower "shallow" = "shallow" := by decide +kernel
  have hfind : s.catalogue.find "shallow" = .ok shallow.family := by
    unfold Catalogue.find
    rw [hlower]
    rfl
  have hprepare : s.prepare {} none [(.maxSymbols, 5)] "shallow" 3
      = .ok (c, { settings := { maxSymbols := .int 5 } }) :=
    prepare_of_find rfl hfind rfl
  have hword : c.expansion 3 = word := by decide
  refine ⟨?_, hprepare, ?_, ?_, ?_⟩
  . unfold Catalogue.register
    rw [hlower]
  . rw [← hword]
    exact c.expand_int 3
  . decide
  . rw [answer_expand_of_prepare hprepare]
    change (⟨linesOf none (c.expansion 3), .done⟩ : Report) = _
    rw [hword]
    congr 1
    decide +kernel

end Surroundings
end Command
end TurtleCurves
