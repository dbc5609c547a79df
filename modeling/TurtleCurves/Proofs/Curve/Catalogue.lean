import TurtleCurves.Curve.Catalogue
import TurtleCurves.Curve.Scripted
import TurtleCurves.Proofs.Curve.Construction
import TurtleCurves.Proofs.Entries
import TurtleCurves.Proofs.Fault
import TurtleCurves.Proofs.Text.Lowercase

/-!
This module contains catalogues after whole histories of registrations. A name finds the family that came
in last under it, in whatever case it is written, and the names stay in the order in which they first came
in.
-/

namespace TurtleCurves

/-- An attempt to register a family, or something that is none, under a name. -/
structure Registration where
  name : String
  family : Option Family

namespace Registration

def entry? (r : Registration) : Option (String × Family) :=
  r.family.map fun f => (Text.lower r.name, f)

end Registration

namespace Catalogue

variable {c : Catalogue} {f : Family} {fault : Fault}

def after (c : Catalogue) (r : Registration) : Catalogue :=
  match c.register r.name r.family with
  | .ok registered => registered
  | .error _ => c

def afterAll (c : Catalogue) (history : List Registration) : Catalogue :=
  history.foldl after c

def entered (history : List Registration) : List (String × Family) :=
  builtIn.entries ++ history.filterMap Registration.entry?

theorem entered_concat (history : List Registration) (r : Registration) :
    entered (history ++ [r]) = entered history ++ r.entry?.toList := by
  cases h : r.entry? <;> simp [entered, h]

theorem entries_afterAll (history : List Registration) :
    (builtIn.afterAll history).entries = Entries.ofList (entered history) := by
  induction history using List.reverseRecOn with
  | nil => rfl
  | append_singleton history r ih =>
    obtain ⟨name, family⟩ := r
    rw [entered_concat]
    rw [afterAll, List.foldl_append, List.foldl_cons, List.foldl_nil]
    change ((builtIn.afterAll history).after ⟨name, family⟩).entries = _
    cases family with
    | none =>
      rw [Registration.entry?, Option.map_none, Option.toList_none, List.append_nil]
      exact ih
    | some f =>
      rw [Registration.entry?, Option.map_some, Option.toList_some]
      rw [Entries.ofList_concat, ← ih]
      rfl

theorem names_afterAll (history : List Registration) :
    (builtIn.afterAll history).names = ((entered history).map Prod.fst).eraseDups := by
  unfold names
  rw [entries_afterAll]
  apply Entries.keys_ofList

theorem nodup_names_afterAll (history : List Registration) : (builtIn.afterAll history).names.Nodup := by
  unfold names
  rw [entries_afterAll]
  apply Entries.nodup_keys_ofList

theorem find_afterAll (history : List Registration) (name : String) :
    (builtIn.afterAll history).find name =
      match (entered history).reverse.lookup (Text.lower name) with
      | some f => .ok f
      | none => .error (.unknownCurve name (builtIn.afterAll history).names) := by
  have hget : (builtIn.afterAll history).entries.get? (Text.lower name)
      = (entered history).reverse.lookup (Text.lower name) := by
    rw [entries_afterAll]
    apply Entries.get?_ofList
  unfold find
  cases hlookup : (entered history).reverse.lookup (Text.lower name) with
  | none => simp only [hget, hlookup]
  | some f => simp only [hget, hlookup]

theorem lower_builtIn : ∀ name ∈ builtIn.names, Text.lower name = name := by
  decide +kernel

theorem lower_entered (history : List Registration) :
    ∀ name ∈ (entered history).map Prod.fst, Text.lower name = name := by
  intro name hname
  rw [entered, List.map_append, List.mem_append] at hname
  obtain hbuiltIn | hregistered := hname
  . exact lower_builtIn name hbuiltIn
  . simp only [List.mem_map, List.mem_filterMap, Registration.entry?, Option.map_eq_some_iff]
      at hregistered
    obtain ⟨_, ⟨r, _, f, _, rfl⟩, rfl⟩ := hregistered
    exact Text.lower_lower r.name

theorem lower_names_afterAll (history : List Registration) :
    ∀ name ∈ (builtIn.afterAll history).names, Text.lower name = name := by
  intro name hname
  rw [names_afterAll, List.mem_eraseDups] at hname
  exact lower_entered history name hname

theorem find_of_mem (history : List Registration) {name : String}
    (h : (name, f) ∈ (builtIn.afterAll history).entries) :
    (builtIn.afterAll history).find name = .ok f := by
  have hname : name ∈ (builtIn.afterAll history).names := List.mem_map_of_mem h
  unfold find
  rw [lower_names_afterAll history name hname]
  rw [Entries.get?_of_mem (nodup_names_afterAll history) h]

theorem mem_of_find (history : List Registration) {name : String}
    (hname : name ∈ (builtIn.afterAll history).names) (h : (builtIn.afterAll history).find name = .ok f) :
    (name, f) ∈ (builtIn.afterAll history).entries := by
  obtain ⟨⟨_, g⟩, hentry, rfl⟩ := List.mem_map.1 hname
  rw [find_of_mem history hentry] at h
  cases h
  exact hentry

/-- What a list says of a family: how its simplest curve describes itself, or why it is refused. -/
inductive Introduces (f : Family) : String → Prop
  | described {c : Curve} {text : String} :
    f.make (.int 0) = .ok c → f.describe c = .ok text → Introduces f text
  | unavailable {refusal : Refusal} :
    f.make (.int 0) = .error (.refused refusal) →
    Introduces f (f.name ++ " (unavailable: " ++ refusal.message ++ ")")
  | undescribed {c : Curve} {refusal : Refusal} :
    f.make (.int 0) = .ok c → f.describe c = .error (.refused refusal) →
    Introduces f (f.name ++ " (unavailable: " ++ refusal.message ++ ")")

/-- The simplest curve of a family fails with something else than a refusal. -/
inductive Breaks (f : Family) : Fault → Prop
  | made {fault : Fault} :
    f.make (.int 0) = .error fault → (∀ refusal, fault ≠ .refused refusal) → Breaks f fault
  | described {c : Curve} {fault : Fault} :
    f.make (.int 0) = .ok c → f.describe c = .error fault → (∀ refusal, fault ≠ .refused refusal) →
    Breaks f fault

theorem summary_eq_ok_iff {text : String} : summary f = .ok text ↔ Introduces f text := by
  have hsummary : summary f = .ok text ↔ introduction f = .ok text ∨
      ∃ refusal, introduction f = .error (.refused refusal) ∧
        f.name ++ " (unavailable: " ++ refusal.message ++ ")" = text := by
    unfold summary
    cases introduction f with
    | ok description => simp
    | error fault => cases fault <;> simp
  rw [hsummary]
  unfold introduction
  simp only [Result.bind_eq_ok, Result.bind_eq_error]
  constructor
  . rintro (⟨c, hmake, hdescribe⟩ | ⟨refusal, hmake | ⟨c, hmake, hdescribe⟩, rfl⟩)
    . exact .described hmake hdescribe
    . exact .unavailable hmake
    . exact .undescribed hmake hdescribe
  . rintro (⟨hmake, hdescribe⟩ | ⟨hmake⟩ | ⟨hmake, hdescribe⟩)
    . exact .inl ⟨_, hmake, hdescribe⟩
    . exact .inr ⟨_, .inl hmake, rfl⟩
    . exact .inr ⟨_, .inr ⟨_, hmake, hdescribe⟩, rfl⟩

theorem summary_eq_error_iff : summary f = .error fault ↔ Breaks f fault := by
  have hsummary : summary f = .error fault ↔
      introduction f = .error fault ∧ ∀ refusal, fault ≠ .refused refusal := by
    unfold summary
    cases introduction f with
    | ok description => simp
    | error cause => cases cause <;> aesop
  rw [hsummary]
  unfold introduction
  rw [Result.bind_eq_error]
  constructor
  . rintro ⟨hmake | ⟨c, hmake, hdescribe⟩, hother⟩
    . exact .made hmake hother
    . exact .described hmake hdescribe hother
  . rintro (⟨hmake, hother⟩ | ⟨hmake, hdescribe, hother⟩)
    . exact ⟨.inl hmake, hother⟩
    . exact ⟨.inr ⟨_, hmake, hdescribe⟩, hother⟩

theorem exists_introduces_or_breaks (f : Family) :
    (∃ text, Introduces f text) ∨ ∃ fault, Breaks f fault := by
  cases h : summary f with
  | ok text => exact .inl ⟨text, summary_eq_ok_iff.1 h⟩
  | error fault => exact .inr ⟨fault, summary_eq_error_iff.1 h⟩

theorem not_breaks_definition (d : Definition) : ¬ Breaks d.family fault := by
  rintro (⟨hmake, hother⟩ | ⟨-, hdescribe, -⟩)
  . obtain ⟨refusal, rfl, -⟩ := Definition.firstViolated_of_curve hmake
    exact hother refusal rfl
  . cases hdescribe

theorem not_breaks_script {s : Script} (h : s.checkLimit = .ok ()) : ¬ Breaks s.family fault := by
  rintro (⟨hmake, hother⟩ | ⟨-, hdescribe, -⟩)
  . change s.make (.int 0) = _ at hmake
    rw [s.make_eq_curve h] at hmake
    obtain ⟨refusal, rfl, -⟩ := Definition.firstViolated_of_curve hmake
    exact hother refusal rfl
  . cases hdescribe

theorem line_eq_ok_iff {entry : String × Family} {shown : String × String} :
    line entry = .ok shown ↔ entry.1 = shown.1 ∧ Introduces entry.2 shown.2 := by
  unfold line
  rw [Result.bind_eq_ok]
  constructor
  . rintro ⟨text, hsummary, ⟨⟩⟩
    exact ⟨rfl, summary_eq_ok_iff.1 hsummary⟩
  . rintro ⟨hname, hintroduces⟩
    exact ⟨shown.2, summary_eq_ok_iff.2 hintroduces, congrArg Except.ok (Prod.ext hname rfl)⟩

theorem line_eq_error_iff {entry : String × Family} :
    line entry = .error fault ↔ Breaks entry.2 fault := by
  unfold line
  rw [Result.bind_eq_error, summary_eq_error_iff]
  constructor
  . rintro (hbreaks | ⟨_, -, h⟩)
    . exact hbreaks
    . cases h
  . exact .inl

theorem map_fst_of_list {lines : List (String × String)} (h : c.list = .ok lines) :
    lines.map Prod.fst = c.names := by
  have h := Result.mapM_eq_ok_iff.1 h
  have hnames := h.imp fun entry line hline => (line_eq_ok_iff.1 hline).1
  rw [← List.forall₂_map_right_iff, ← List.forall₂_map_left_iff, List.forall₂_eq_eq_eq] at hnames
  exact hnames.symm

theorem exists_list_iff :
    (∃ lines, c.list = .ok lines) ↔ ∀ entry ∈ c.entries, ∀ fault, ¬ Breaks entry.2 fault := by
  unfold list
  constructor
  . rintro ⟨lines, hlist⟩ entry hentry fault hbreaks
    obtain ⟨line, hline⟩ := (Result.exists_of_mapM_eq_ok hlist).1 entry hentry
    rw [line_eq_error_iff.2 hbreaks] at hline
    cases hline
  . intro hwhole
    cases hlist : c.entries.mapM line with
    | ok lines => exact ⟨lines, rfl⟩
    | error fault =>
      obtain ⟨before, entry, after, hentries, -, hline⟩ := Result.mapM_eq_error_iff.1 hlist
      refine absurd (line_eq_error_iff.1 hline) (hwhole entry ?_ fault)
      simp [hentries]

theorem exists_breaks_of_list (h : c.list = .error fault) :
    ∃ before entry after, c.entries = before ++ entry :: after ∧ Breaks entry.2 fault ∧
      ∀ other ∈ before, ∃ text, Introduces other.2 text := by
  obtain ⟨before, entry, after, hentries, hbefore, hline⟩ := Result.mapM_eq_error_iff.1 h
  refine ⟨before, entry, after, hentries, line_eq_error_iff.1 hline, ?_⟩
  intro other hother
  obtain ⟨shown, hshown⟩ := hbefore other hother
  exact ⟨shown.2, (line_eq_ok_iff.1 hshown).2⟩

/--
After any history of registrations a name finds what was entered last under its lower case, and is unknown
if nothing was. A registration fails exactly for what is no family, and then changes nothing. The names
are those that were entered, in the order of their first appearance, and all of them are found. A list has
one line for each of them in that order, also for a family whose simplest curve is refused. There is a list
exactly if no family fails with something else than a refusal; otherwise the first such family in the order
of the names decides how the list fails.
-/
theorem lookups_after_history (history : List Registration) :
    let c := builtIn.afterAll history
    (∀ name, c.find name =
      match (entered history).reverse.lookup (Text.lower name) with
      | some f => .ok f
      | none => .error (.unknownCurve name c.names)) ∧
    (∀ name, c.register name none = .error .notCurve ∧ c.after ⟨name, none⟩ = c) ∧
    (∀ name f, c.register name (some f) = .ok (c.after ⟨name, some f⟩)) ∧
    c.names = ((entered history).map Prod.fst).eraseDups ∧ c.names.Nodup ∧
    (∀ name ∈ c.names, Text.lower name = name ∧ ∃ f, c.find name = .ok f) ∧
    (∀ lines, c.list = .ok lines → lines.map Prod.fst = c.names ∧
      ∀ line ∈ lines, ∃ f, c.find line.1 = .ok f ∧ Introduces f line.2) ∧
    ((∃ lines, c.list = .ok lines) ↔
      ∀ name ∈ c.names, ∀ f, c.find name = .ok f → ∀ fault, ¬ Breaks f fault) ∧
    ∀ fault, c.list = .error fault →
      ∃ before name after f, c.names = before ++ name :: after ∧ c.find name = .ok f ∧ Breaks f fault ∧
        ∀ other ∈ before, ∃ f text, c.find other = .ok f ∧ Introduces f text := by
  intro c
  refine ⟨find_afterAll history, ?_, ?_, names_afterAll history, nodup_names_afterAll history, ?_, ?_, ?_,
    ?_⟩
  . intro name
    exact ⟨rfl, rfl⟩
  . intro name f
    rfl
  . intro name hname
    refine ⟨lower_names_afterAll history name hname, ?_⟩
    obtain ⟨⟨_, f⟩, hentry, rfl⟩ := List.mem_map.1 hname
    exact ⟨f, find_of_mem history hentry⟩
  . intro lines hlist
    refine ⟨map_fst_of_list hlist, ?_⟩
    intro line hline
    obtain ⟨⟨_, f⟩, hentry, hline⟩ := (Result.exists_of_mapM_eq_ok hlist).2 line hline
    obtain ⟨rfl, hintroduces⟩ := line_eq_ok_iff.1 hline
    exact ⟨f, find_of_mem history hentry, hintroduces⟩
  . rw [exists_list_iff]
    constructor
    . intro hwhole name hname f hf
      exact hwhole _ (mem_of_find history hname hf)
    . rintro hwhole ⟨name, f⟩ hentry
      exact hwhole name (List.mem_map_of_mem hentry) f (find_of_mem history hentry)
  . intro fault hlist
    obtain ⟨before, ⟨name, f⟩, after, hentries, hbreaks, hbefore⟩ := exists_breaks_of_list hlist
    have hnames : c.names = before.map Prod.fst ++ name :: after.map Prod.fst := by
      unfold names Entries.keys
      rw [hentries, List.map_append, List.map_cons]
    have hfind : ∀ entry ∈ c.entries, c.find entry.1 = .ok entry.2 :=
      fun _ hentry => find_of_mem history hentry
    rw [hentries, List.forall_mem_append, List.forall_mem_cons] at hfind
    refine ⟨_, name, _, f, hnames, hfind.2.1, hbreaks, ?_⟩
    intro other hother
    obtain ⟨entry, hentry, rfl⟩ := List.mem_map.1 hother
    obtain ⟨text, hintroduces⟩ := hbefore entry hentry
    exact ⟨entry.2, text, hfind.1 entry hentry, hintroduces⟩

def shy : Script where
  name := "Shy"
  alphabetName := "Sym"
  tokens := ["A"]
  seed := ["A"]
  productions := []
  moves := []
  opening := []
  limit := some (.int (-1))
  fixedDepth := none

def shyHistory : List Registration :=
  [⟨"Curl", some Dragon.pattern.definition.family⟩, ⟨"KOCH", some shy.family⟩, ⟨"curl", none⟩]

theorem lookups_after_history_shy :
    let c := builtIn.afterAll shyHistory
    c.names = ["cesaro", "koch", "levy", "dragon", "curl"] ∧ c.find "Koch" = .ok shy.family ∧
      (∃ f, c.find "curl" = .ok f) ∧
      ∃ lines, c.list = .ok lines ∧ lines.map Prod.fst = c.names ∧
        ∃ line ∈ lines, line.1 = "koch" ∧ Introduces shy.family line.2 := by
  intro c
  obtain ⟨hfind, -, -, hnames, -, hfound, hlines, hlist, -⟩ := lookups_after_history shyHistory
  have hknown : c.names = ["cesaro", "koch", "levy", "dragon", "curl"] := by
    rw [hnames]
    decide +kernel
  have hlower : Text.lower "Koch" = "koch" ∧ Text.lower "koch" = "koch" := by decide +kernel
  have hkoch : ∀ name, Text.lower name = "koch" → c.find name = .ok shy.family := by
    intro name hname
    rw [hfind name, hname]
    rfl
  have hcurl : "curl" ∈ c.names := by simp [hknown]
  have hwhole : ∀ name ∈ c.names, ∀ f, c.find name = .ok f → ∀ fault, ¬ Breaks f fault := by
    intro name hname f hf fault
    rw [hfind name, (hfound name hname).1] at hf
    rw [hknown] at hname
    simp only [List.mem_cons, List.not_mem_nil, or_false] at hname
    obtain rfl | rfl | rfl | rfl | rfl := hname
    . cases hf
      exact not_breaks_definition _
    . cases hf
      exact not_breaks_script rfl
    . cases hf
      exact not_breaks_definition _
    . cases hf
      exact not_breaks_definition _
    . cases hf
      exact not_breaks_definition _
  obtain ⟨lines, hlines'⟩ := hlist.2 hwhole
  obtain ⟨hsame, hintroduced⟩ := hlines lines hlines'
  have hline : "koch" ∈ lines.map Prod.fst := by
    rw [hsame]
    change "koch" ∈ c.names
    simp [hknown]
  obtain ⟨line, hmem, hname⟩ := List.mem_map.1 hline
  obtain ⟨f, hf, hintroduces⟩ := hintroduced line hmem
  rw [hname, hkoch "koch" hlower.2] at hf
  cases hf
  exact ⟨hknown, hkoch "Koch" hlower.1, (hfound "curl" hcurl).2, lines, hlines', hsame, line, hmem, hname,
    hintroduces⟩

/-- A family whose limit is no number, so that no count can be compared with it. -/
def vague : Script :=
  { shy with name := "Few", limit := some (.text "few") }

/-- A family that breaks is registered like any other, and then there is no list at all. -/
theorem no_list_vague :
    let c := builtIn.afterAll [⟨"few", some vague.family⟩]
    c.names = ["cesaro", "koch", "levy", "dragon", "few"] ∧ c.list = .error .wrongSort := by
  have hlower : Text.lower "few" = "few" := by decide +kernel
  have hentries : (builtIn.afterAll [⟨"few", some vague.family⟩]).entries =
      builtIn.entries ++ [("few", vague.family)] := by
    change (builtIn.after ⟨"few", some vague.family⟩).entries = _
    unfold after register
    rw [hlower]
    rfl
  intro c
  constructor
  . unfold names
    rw [hentries]
    rfl
  . unfold list
    rw [hentries]
    rfl

end Catalogue
end TurtleCurves
