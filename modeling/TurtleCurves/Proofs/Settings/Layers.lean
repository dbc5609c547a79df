import TurtleCurves.Command.Program
import TurtleCurves.Proofs.Json.Reading
import TurtleCurves.Proofs.Settings.File

/-!
This module contains the layers of settings. The data of a file, the variables of an environment and the
options of a command line each have values for some fields; whatever the layer, the settings that it is
put upon keep all others.
-/

namespace TurtleCurves
namespace Settings

def tabulate (value : Field → Value) : Settings where
  width := value .width
  height := value .height
  margin := value .margin
  lineWidth := value .lineWidth
  background := value .background
  gradientStart := value .gradientStart
  gradientEnd := value .gradientEnd
  gradientCount := value .gradientCount
  maxSymbols := value .maxSymbols
  jpegQuality := value .jpegQuality
  saveMetadata := value .saveMetadata

/-- The values that a layer has for some of the fields. -/
abbrev Layer := Field → Option Value

def overlay (s : Settings) (layer : Layer) : Settings :=
  tabulate fun field => (layer field).getD (s.get field)

variable {s t : Settings} {data read : Fields} {field : Field} {layer : Layer}

theorem get_tabulate (value : Field → Value) (field : Field) : (tabulate value).get field = value field := by
  cases field <;> rfl

theorem eq_of_get (h : ∀ field, s.get field = t.get field) : s = t := by
  change tabulate s.get = tabulate t.get
  rw [funext h]

@[simp]
theorem get_overlay (s : Settings) (layer : Layer) (field : Field) :
    (s.overlay layer).get field = (layer field).getD (s.get field) := by
  unfold overlay
  rw [get_tabulate]

theorem eq_overlay_iff : t = s.overlay layer ↔ ∀ field, t.get field = (layer field).getD (s.get field) := by
  constructor
  . rintro rfl
    simp
  . intro h
    apply eq_of_get
    simpa using h

/-! The data of a file. -/

/-- The values that data states for the fields; of a color the channels are read as whole numbers. -/
def stated (data : Fields) : Layer := fun field =>
  match field.reading with
  | .color => (data.get? field.name).bind fun color => (readColor color).toOption
  | _ => data.get? field.name

/-- The colors among data are sequences of what can be read as whole numbers. -/
def HasColors (data : Fields) : Prop :=
  ∀ field ∈ Field.colors, ∀ color, data.get? field.name = some color → ∃ read, readColor color = .ok read

theorem get?_readColorAt (h : readColorAt data field = .ok read) (other : Field) :
    read.get? other.name =
      if other = field then (data.get? field.name).bind fun color => (readColor color).toOption
      else data.get? other.name := by
  unfold readColorAt at h
  split at h
  . next color hcolor =>
    rw [Result.bind_eq_ok] at h
    obtain ⟨replaced, hreplaced, h⟩ := h
    cases h
    split
    . next heq =>
      rw [heq, Entries.get?_put_self, hcolor]
      simp [hreplaced, Except.toOption]
    . next hne => exact Entries.get?_put_of_ne data replaced fun heq => hne (name_injective heq)
  . next hnone =>
    cases h
    split
    . next heq =>
      rw [heq, hnone]
      rfl
    . rfl

theorem get?_foldlM_readColorAt {colors : List Field} (hcolors : colors.Nodup)
    (h : colors.foldlM readColorAt data = .ok read) (field : Field) :
    read.get? field.name =
      if field ∈ colors then (data.get? field.name).bind fun color => (readColor color).toOption
      else data.get? field.name := by
  induction colors generalizing data with
  | nil =>
    cases h
    rfl
  | cons first colors ih =>
    rw [List.foldlM_cons, Result.bind_eq_ok] at h
    obtain ⟨between, hstep, h⟩ := h
    rw [List.nodup_cons] at hcolors
    rw [ih hcolors.2 h]
    rw [get?_readColorAt hstep]
    by_cases heq : field = first
    . subst heq
      simp [hcolors.1]
    . simp [heq]

theorem get?_readColors (h : readColors data = .ok read) (field : Field) :
    read.get? field.name = stated data field := by
  rw [get?_foldlM_readColorAt (by decide) h field]
  unfold stated
  split
  . next hmem => rw [mem_colors.1 hmem]
  . next hmem =>
    split
    . next hcolor => exact absurd (mem_colors.2 hcolor) hmem
    . rfl

theorem exists_readColorAt_iff :
    (∃ read, readColorAt data field = .ok read) ↔
      ∀ color, data.get? field.name = some color → ∃ read, readColor color = .ok read := by
  unfold readColorAt
  cases data.get? field.name with
  | none => simp [pure, Except.pure]
  | some color =>
    simp only [Result.bind_eq_ok, Option.some.injEq, forall_eq']
    constructor
    . rintro ⟨_, read, hread, -⟩
      exact ⟨read, hread⟩
    . rintro ⟨read, hread⟩
      exact ⟨_, read, hread, rfl⟩

theorem exists_foldlM_readColorAt_iff {colors : List Field} (hcolors : colors.Nodup) :
    (∃ read, colors.foldlM readColorAt data = .ok read) ↔
      ∀ field ∈ colors, ∀ color, data.get? field.name = some color → ∃ read, readColor color = .ok read := by
  induction colors generalizing data with
  | nil => simp [pure, Except.pure]
  | cons first colors ih =>
    rw [List.nodup_cons] at hcolors
    -- The first color leaves the others as they are in the data.
    have hrest {between : Fields} (hstep : readColorAt data first = .ok between) :
        (∃ read, colors.foldlM readColorAt between = .ok read) ↔
          ∀ field ∈ colors, ∀ color, data.get? field.name = some color →
            ∃ read, readColor color = .ok read := by
      rw [ih hcolors.2]
      refine forall₂_congr fun field hfield => ?_
      have hne : field ≠ first := fun heq => hcolors.1 (heq ▸ hfield)
      rw [get?_readColorAt hstep, if_neg hne]
    rw [List.forall_mem_cons, ← exists_readColorAt_iff]
    simp only [List.foldlM_cons, Result.bind_eq_ok]
    constructor
    . rintro ⟨read, between, hstep, hread⟩
      exact ⟨⟨between, hstep⟩, (hrest hstep).1 ⟨read, hread⟩⟩
    . rintro ⟨⟨between, hstep⟩, hcolors⟩
      obtain ⟨read, hread⟩ := (hrest hstep).2 hcolors
      exact ⟨read, between, hstep, hread⟩

theorem hasColors_iff : HasColors data ↔ ∃ read, readColors data = .ok read :=
  (exists_foldlM_readColorAt_iff (by decide)).symm

theorem keys_readColors (h : readColors data = .ok read) : read.keys = data.keys :=
  (foldlM_readColorAt_eq_ok h).1

theorem exists_ofFields {fields : Fields} (h : ∀ name ∈ fields.keys, isKnown name) :
    ∃ s, ofFields fields = .ok s := by
  refine ⟨_, Result.bind_eq_ok.2 ⟨_, Result.mapM_eq_ok
    (g := fun entry => ((Field.ofName? entry.1).getD default, entry.2)) ?_, rfl⟩⟩
  rintro ⟨name, value⟩ hentry
  obtain ⟨field, hfield⟩ := Option.isSome_iff_exists.1 (h name (List.mem_map_of_mem hentry))
  simp only [hfield, Option.getD_some]

theorem eq_overlay_of_ofValue (hkeys : data.keys.Nodup) (h : ofValue (.object data) = .ok s) :
    s = overlay {} (stated data) ∧ s.validate = .ok () := by
  obtain ⟨read, hread, hsettings, hvalid⟩ := ofValue_eq_ok h
  refine ⟨?_, hvalid⟩
  rw [eq_overlay_iff]
  intro field
  rw [get_ofFields (keys_readColors hread ▸ hkeys) hsettings, get?_readColors hread]

theorem ofValue_eq_ok_iff_of_isKnown (hkeys : data.keys.Nodup) (hnames : ∀ name ∈ data.keys, isKnown name)
    (hcolors : HasColors data) :
    ofValue (.object data) = .ok s ↔ s = overlay {} (stated data) ∧ s.validate = .ok () := by
  constructor
  . exact eq_overlay_of_ofValue hkeys
  . rintro ⟨hs, hvalid⟩
    obtain ⟨read, hread⟩ := hasColors_iff.1 hcolors
    have hnames' : ∀ name ∈ read.keys, isKnown name := keys_readColors hread ▸ hnames
    obtain ⟨settings, hsettings⟩ := exists_ofFields hnames'
    have heq : settings = s := by
      rw [hs, eq_overlay_iff]
      intro field
      rw [get_ofFields (keys_readColors hread ▸ hkeys) hsettings, get?_readColors hread]
    exact ofValue_of_isKnown hnames hread (heq ▸ hsettings) hvalid

/-! The variables of an environment. -/

namespace Environment

variable {environment : Environment}

def textOf? (environment : Environment) (field : Field) : Option String :=
  environment.get? (variableName lead field)

def given (environment : Environment) : Layer := fun field =>
  (environment.textOf? field).bind (readValue? field)

def Parses (environment : Environment) : Prop :=
  ∀ field text, environment.textOf? field = some text → ∃ value, readValue? field text = some value

theorem variableName_injective {field other : Field}
    (h : variableName lead field = variableName lead other) : field = other := by
  have hnodup : (Field.all.map (variableName lead)).Nodup := by decide +kernel
  exact List.inj_on_of_nodup_map hnodup (Field.mem_all field) (Field.mem_all other) h

def ofTexts (texts : List (Field × String)) : Environment :=
  texts.map fun (field, text) => (variableName lead field, text)

theorem textOf?_ofTexts (texts : List (Field × String)) (field : Field) :
    (ofTexts texts).textOf? field = texts.lookup field := by
  unfold textOf? ofTexts
  induction texts with
  | nil => rfl
  | cons entry texts ih =>
    obtain ⟨other, text⟩ := entry
    rw [List.map_cons]
    by_cases heq : field = other
    . simp [Entries.get?, heq]
    . have hname : variableName lead other ≠ variableName lead field :=
        fun h => heq (variableName_injective h).symm
      have hbeq : (field == other) = false := by simp [heq]
      simp [Entries.get?, List.lookup, hname, hbeq, ih]

theorem textOf?_cons_of_ne {name text : String} (h : name ≠ variableName lead field) :
    textOf? ((name, text) :: environment) field = environment.textOf? field := by
  simp [textOf?, Entries.get?, h]

theorem given_of_lookup {texts : List (Field × String)}
    (htexts : ∀ field, environment.textOf? field = texts.lookup field) :
    environment.given = fun field => (texts.lookup field).bind (readValue? field) := by
  funext field
  unfold given
  rw [htexts]

theorem parses_of_lookup {texts : List (Field × String)}
    (htexts : ∀ field, environment.textOf? field = texts.lookup field)
    (h : ∀ entry ∈ texts, (readValue? entry.1 entry.2).isSome) : environment.Parses := by
  intro field text htext
  rw [htexts, List.lookup_eq_some_iff] at htext
  obtain ⟨front, back, rfl, -⟩ := htext
  exact Option.isSome_iff_exists.1 (h (field, text) (by simp))

theorem override?_of_parses (h : environment.Parses) (field : Field) :
    environment.override? lead field = .ok ((environment.given field).map (field, ·)) := by
  have hfind : environment.get? (variableName lead field) = environment.textOf? field := rfl
  unfold override? given
  rw [hfind]
  cases htext : environment.textOf? field with
  | none => rfl
  | some text =>
    obtain ⟨value, hvalue⟩ := h field text htext
    simp [hvalue]

theorem parses_of_overrides {values : List (Field × Value)} (h : environment.overrides lead = .ok values) :
    environment.Parses := by
  intro field text htext
  obtain ⟨found, hfound⟩ := Result.of_filterMapM_eq_ok h field (Field.mem_all field)
  have hfind : environment.get? (variableName lead field) = some text := htext
  unfold override? at hfound
  simp only [hfind] at hfound
  split at hfound
  . next value hvalue => exact ⟨value, hvalue⟩
  . cases hfound

end Environment

theorem get_setAll_filterMap (layer : Layer) (fields : List Field) (s : Settings) (field : Field) :
    (s.setAll (fields.filterMap fun field => (layer field).map (field, ·))).get field =
      if field ∈ fields then (layer field).getD (s.get field) else s.get field := by
  induction fields generalizing s with
  | nil => rfl
  | cons first fields ih =>
    cases hfirst : layer first with
    | none =>
      rw [List.filterMap_cons_none (by simp [hfirst]), ih]
      by_cases heq : field = first
      . simp [heq, hfirst]
      . simp [heq]
    | some value =>
      rw [List.filterMap_cons_some (b := (first, value)) (by simp [hfirst]), get_setAll_cons, ih]
      by_cases heq : field = first
      . simp [heq, hfirst, get_set_self]
      . simp [heq, get_set_of_ne]

theorem applyEnvironment_eq_ok_iff {environment : Environment} :
    s.applyEnvironment environment = .ok t ↔ environment.Parses ∧ t = s.overlay environment.given := by
  have hlayer (h : environment.Parses) :
      s.applyEnvironment environment = .ok (s.overlay environment.given) := by
    unfold applyEnvironment Environment.overrides
    rw [Result.filterMapM_eq_ok fun field _ => Environment.override?_of_parses h field]
    change Except.ok _ = _
    congr 1
    apply eq_of_get
    intro field
    rw [get_setAll_filterMap, if_pos (Field.mem_all field), get_overlay]
  constructor
  . intro h
    have hparses : environment.Parses := by
      unfold applyEnvironment at h
      rw [Result.bind_eq_ok] at h
      obtain ⟨values, hvalues, -⟩ := h
      exact Environment.parses_of_overrides hvalues
    rw [hlayer hparses] at h
    cases h
    exact ⟨hparses, rfl⟩
  . rintro ⟨hparses, rfl⟩
    exact hlayer hparses

/-! The options of a command line. -/

def chosen (overrides : List (Field × Int)) : Layer := fun field =>
  (overrides.reverse.lookup field).map .int

theorem setAll_eq_overlay (s : Settings) (overrides : List (Field × Int)) :
    s.setAll (overrides.map fun (field, n) => (field, .int n)) = s.overlay (chosen overrides) := by
  rw [eq_overlay_iff]
  intro field
  induction overrides using List.reverseRecOn with
  | nil => rfl
  | append_singleton overrides entry ih =>
    obtain ⟨last, n⟩ := entry
    have hset : s.setAll ((overrides ++ [(last, n)]).map fun (field, n) => (field, .int n))
        = (s.setAll (overrides.map fun (field, n) => (field, .int n))).set last (.int n) := by
      simp [setAll]
    rw [hset]
    unfold chosen
    by_cases heq : field = last
    . simp [heq, get_set_self]
    . have hbeq : (field == last) = false := by simp [heq]
      rw [get_set_of_ne _ _ heq, ih]
      simp [chosen, List.lookup, hbeq]

/-! The files. -/

/-- The section of a document that holds settings; a document without it has an empty one. -/
def sectionOf : Value → Result Fields
  | .object fields =>
    match (Entries.get? fields sectionName).getD (.object []) with
    | .object data => .ok data
    | _ => .error .sectionNotObject
  | _ => .error .missingOperation

def dataOf (store : Store) (file : Option String) : Result Fields :=
  match file.filter (· ≠ "") with
  | some name => load store (.ofText name) >>= sectionOf
  | none => .ok []

theorem ofDocument_eq (document : Value) :
    ofDocument document = sectionOf document >>= fun data => ofValue (.object data) := by
  unfold ofDocument sectionOf
  cases document with
  | object fields =>
    simp only
    generalize (Entries.get? fields sectionName).getD (.object []) = value
    cases value <;> rfl
  | _ => rfl

theorem ofValue_nil : ofValue (.object []) = .ok {} :=
  ofValue_of_isKnown (by decide) rfl rfl rfl

theorem assemble_eq (store : Store) (file : Option String) (environment : Environment) :
    assemble store file environment = dataOf store file >>= fun data => ofValue (.object data) >>= fun s =>
      s.applyEnvironment environment >>= fun t => t.validate >>= fun _ => .ok t := by
  -- The reading checks the settings before the environment changes them.
  unfold assemble dataOf
  generalize file.filter (· ≠ "") = named
  cases named with
  | some name =>
    simp only [ofDocument_eq, bind_assoc]
    rfl
  | none =>
    change _ = ofValue (.object []) >>= _
    rw [ofValue_nil]
    rfl

theorem assemble_eq_ok_iff {store : Store} {file : Option String} {environment : Environment} :
    assemble store file environment = .ok t ↔
      ∃ data s, dataOf store file = .ok data ∧ ofValue (.object data) = .ok s ∧
        s.applyEnvironment environment = .ok t ∧ t.validate = .ok () := by
  rw [assemble_eq]
  simp only [Result.bind_eq_ok]
  constructor
  . rintro ⟨data, hdata, s, hs, t, happly, _, hvalid, ⟨⟩⟩
    exact ⟨data, s, hdata, hs, happly, hvalid⟩
  . rintro ⟨data, s, hdata, hs, happly, hvalid⟩
    exact ⟨data, hdata, s, hs, t, happly, (), hvalid, rfl⟩

theorem nodup_of_sectionOf {document : Value} (hdocument : document.isJson)
    (h : sectionOf document = .ok data) : data.keys.Nodup := by
  unfold sectionOf at h
  split at h
  . next fields =>
    split at h
    . next hsection =>
      cases h
      cases hget : Entries.get? fields sectionName with
      | none =>
        rw [hget] at hsection
        cases hsection
        simp [Entries.keys]
      | some value =>
        rw [hget] at hsection
        cases hsection
        simp only [Value.isJson, Bool.and_eq_true] at hdocument
        have hvalue := haveJson_iff.1 hdocument.1 _ (Entries.mem_of_get?_eq_some hget)
        simp only [Value.isJson, Bool.and_eq_true, decide_eq_true_eq] at hvalue
        exact hvalue.2
    . cases h
  . cases h

theorem nodup_of_dataOf {store : Store} {file : Option String} (h : dataOf store file = .ok data) :
    data.keys.Nodup := by
  unfold dataOf at h
  split at h
  . rw [Result.bind_eq_ok] at h
    obtain ⟨document, hload, hsection⟩ := h
    unfold load at hload
    rw [Result.bind_eq_ok] at hload
    obtain ⟨text, -, hread⟩ := hload
    split at hread
    . next fields hfields =>
      cases hread
      exact nodup_of_sectionOf (Json.isJson_of_read hfields) hsection
    . cases hread
    . cases hread
    . cases hread
  . cases h
    simp [Entries.keys]

def holding (name : FileName) (document : Value) : Store :=
  Store.put {} name (.file (.text (Json.write fileLayout document)))

theorem dataOf_holding {name : String} {fields : Fields} (hname : name ≠ "")
    (hsteps : (FileName.ofText name).steps ≠ []) (hdocument : (Value.object fields).isJson) :
    dataOf (holding (.ofText name) (.object fields)) (some name) = sectionOf (.object fields) := by
  have hspaced : fileLayout.isSpaced := by decide
  have hspace : "".toList.all Json.isSpace := by decide
  have hread : Json.read (Json.write fileLayout (.object fields)) = .ok (.object fields) := by
    simpa using Json.read_write hspaced hdocument hspace
  have hload : load (holding (.ofText name) (.object fields)) (.ofText name) = .ok (.object fields) :=
    load_eq (Store.find?_put_self _ _ hsteps) hread
  unfold dataOf
  rw [Option.filter_some_pos (by simpa using hname)]
  simp only [hload, bind, Except.bind]

end Settings
end TurtleCurves
