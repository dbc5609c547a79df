import TurtleCurves.Proofs.Fault
import TurtleCurves.Proofs.Json.RoundTrip
import TurtleCurves.Settings.Section

/-!
This module contains what settings are read from. Each field has the value of its name among the data,
or else the usual one; colors are lists of bytes; and the fields written by name are read as the same
settings.
-/

namespace TurtleCurves
namespace Settings

variable {s : Settings} {fields read : Fields} {field : Field}

theorem name_injective {field other : Field} (h : field.name = other.name) : field = other := by
  have hfield := Field.ofName?_name field
  rw [h, Field.ofName?_name] at hfield
  exact (Option.some.inj hfield).symm

theorem name_of_ofName? {name : String} (h : Field.ofName? name = some field) : field.name = name := by
  simpa using List.find?_some h

theorem get_setAll_cons (s : Settings) (other : Field) (value : Value) (values : List (Field × Value)) :
    s.setAll ((other, value) :: values) = (s.set other value).setAll values := rfl

theorem get_setAll {values : List (Field × Value)} (hkeys : fields.keys.Nodup)
    (h : fields.mapM (fun (name, value) =>
      match Field.ofName? name with
      | some field => .ok (field, value)
      | none => .error .wrongSort) = (.ok values : Result (List (Field × Value))))
    (s : Settings) (field : Field) :
    (s.setAll values).get field = (fields.get? field.name).getD (s.get field) := by
  induction fields generalizing values s with
  | nil =>
    cases h
    rfl
  | cons entry rest ih =>
    obtain ⟨name, value⟩ := entry
    obtain ⟨found, values, hfound, hrest, rfl⟩ := Result.mapM_cons_eq_ok h
    simp only [Entries.keys, List.map_cons, List.nodup_cons] at hkeys
    simp only at hfound
    split at hfound
    . next other hname =>
      cases hfound
      rw [get_setAll_cons, ih hkeys.2 hrest]
      have hother := name_of_ofName? hname
      by_cases heq : field = other
      . subst heq
        have hnone : Entries.get? rest field.name = none := by
          rw [Entries.get?_eq_none_iff, hother]
          exact hkeys.1
        rw [hnone, get_set_self]
        simp [Entries.get?, hother]
      . have hne : name ≠ field.name := by
          rw [← hother]
          exact fun h => heq (name_injective h).symm
        rw [get_set_of_ne s value heq]
        simp [Entries.get?, hne]
    . cases hfound

theorem get_ofFields (hkeys : fields.keys.Nodup) (h : ofFields fields = .ok s) (field : Field) :
    s.get field = (fields.get? field.name).getD (({} : Settings).get field) := by
  unfold ofFields at h
  rw [Result.bind_eq_ok] at h
  obtain ⟨values, hvalues, h⟩ := h
  cases h
  exact get_setAll hkeys hvalues {} field

def HasChannels (color : Value) : Prop :=
  ∃ channels : List Int, color = .list (channels.map .int)

theorem hasChannels_readColor {color read : Value} (h : readColor color = .ok read) :
    HasChannels read := by
  unfold readColor at h
  simp only [Result.bind_eq_ok] at h
  obtain ⟨items, -, channels, -, h⟩ := h
  cases h
  exact ⟨channels, rfl⟩

def readColorAt (fields : Fields) (field : Field) : Result Fields := do
  match fields.get? field.name with
  | some color => return fields.put field.name (← readColor color)
  | none => return fields

theorem readColors_eq (fields : Fields) : readColors fields = Field.colors.foldlM readColorAt fields := rfl

theorem readColorAt_eq_ok (h : readColorAt fields field = .ok read) :
    read.keys = fields.keys ∧
      (∀ color, read.get? field.name = some color → HasChannels color) ∧
      ∀ other, other ≠ field → read.get? other.name = fields.get? other.name := by
  unfold readColorAt at h
  split at h
  . next color hcolor =>
    rw [Result.bind_eq_ok] at h
    obtain ⟨replaced, hreplaced, h⟩ := h
    cases h
    have hmem : field.name ∈ fields.keys := by
      by_contra hmem
      rw [← Entries.get?_eq_none_iff, hcolor] at hmem
      cases hmem
    refine ⟨by rw [Entries.keys_put, if_pos hmem], ?_, ?_⟩
    . intro color hcolor
      rw [Entries.get?_put_self] at hcolor
      cases hcolor
      exact hasChannels_readColor hreplaced
    . intro other hother
      exact Entries.get?_put_of_ne fields replaced fun heq => hother (name_injective heq)
  . next hnone =>
    cases h
    refine ⟨rfl, ?_, fun _ _ => rfl⟩
    intro color hcolor
    rw [hnone] at hcolor
    cases hcolor

theorem foldlM_readColorAt_eq_ok {colors : List Field} (h : colors.foldlM readColorAt fields = .ok read) :
    read.keys = fields.keys ∧
      (∀ field ∈ colors, ∀ color, read.get? field.name = some color → HasChannels color) ∧
      ∀ field, field ∉ colors → read.get? field.name = fields.get? field.name := by
  induction colors generalizing fields with
  | nil =>
    cases h
    exact ⟨rfl, by simp, fun _ _ => rfl⟩
  | cons first colors ih =>
    rw [List.foldlM_cons, Result.bind_eq_ok] at h
    obtain ⟨between, hstep, h⟩ := h
    obtain ⟨hkeys, hcolor, hother⟩ := readColorAt_eq_ok hstep
    obtain ⟨hkeys', hcolor', hother'⟩ := ih h
    refine ⟨hkeys'.trans hkeys, ?_, ?_⟩
    . intro field hmem color hget
      by_cases hlater : field ∈ colors
      . exact hcolor' field hlater color hget
      . obtain rfl := (List.mem_cons.1 hmem).resolve_right hlater
        rw [hother' field hlater] at hget
        exact hcolor color hget
    . intro field hmem
      rw [List.mem_cons, not_or] at hmem
      rw [hother' field hmem.2]
      exact hother field hmem.1

theorem ofValue_eq_ok (h : ofValue (.object fields) = .ok s) :
    ∃ read, readColors fields = .ok read ∧ ofFields read = .ok s ∧ s.validate = .ok () := by
  unfold ofValue at h
  rw [Result.bind_eq_ok] at h
  obtain ⟨names, -, h⟩ := h
  rw [Result.bind_eq_ok] at h
  obtain ⟨unknown, -, h⟩ := h
  split at h
  . cases h
  . rw [Result.bind_eq_ok] at h
    obtain ⟨data, hdata, h⟩ := h
    cases hdata
    rw [Result.bind_eq_ok] at h
    obtain ⟨read, hread, h⟩ := h
    rw [Result.bind_eq_ok] at h
    obtain ⟨settings, hsettings, h⟩ := h
    rw [Result.bind_eq_ok] at h
    obtain ⟨_, hvalid, h⟩ := h
    cases h
    exact ⟨read, hread, hsettings, hvalid⟩

theorem of_areBytes {channels : List Int} (h : areBytes (channels.map .int) = .ok true) :
    ∀ n ∈ channels, 0 ≤ n ∧ n ≤ maxChannel := by
  induction channels with
  | nil => simp
  | cons n channels ih =>
    rw [List.map_cons, areBytes, Value.toInt_int] at h
    change (if 0 ≤ n ∧ n ≤ maxChannel then areBytes (channels.map .int) else .ok false) = .ok true at h
    split at h
    . next hn =>
      intro n' hn'
      rcases List.mem_cons.1 hn' with rfl | hn'
      . exact hn
      . exact ih h n' hn'
    . cases h

theorem of_checkColor {channels : List Int} (h : s.checkColor field = .ok ())
    (hchannels : s.get field = .list (channels.map .int)) : ∀ n ∈ channels, 0 ≤ n ∧ n ≤ maxChannel := by
  unfold checkColor at h
  rw [Result.bind_eq_ok] at h
  obtain ⟨isColor, hcolor, h⟩ := h
  cases isColor with
  | false => cases h
  | true =>
    rw [hchannels] at hcolor
    change (if _ then areBytes (channels.map .int) else .ok false) = .ok true at hcolor
    split at hcolor
    . exact of_areBytes hcolor
    . cases hcolor

theorem of_validate (h : s.validate = .ok ()) (hfield : field ∈ Field.colors) :
    s.checkColor field = .ok () := by
  unfold validate at h
  rw [Result.bind_eq_ok] at h
  obtain ⟨_, -, h⟩ := h
  rw [Result.bind_eq_ok] at h
  obtain ⟨_, -, h⟩ := h
  rw [Result.bind_eq_ok] at h
  obtain ⟨_, -, h⟩ := h
  rw [Result.bind_eq_ok] at h
  obtain ⟨_, hcolors, -⟩ := h
  exact Result.of_forM_eq_ok hcolors field hfield

/-- Settings whose colors are lists of bytes and whose values can be written to a data file. -/
structure IsStorable (s : Settings) : Prop where
  colors : ∀ field ∈ Field.colors, ∃ channels : List Int,
    s.get field = .list (channels.map .int) ∧ ∀ n ∈ channels, 0 ≤ n ∧ n ≤ maxChannel
  isJson : ∀ field, (s.get field).isJson

theorem haveJson_iff {fields : List (String × Value)} :
    Value.haveJson fields ↔ ∀ field ∈ fields, field.2.isJson := by
  induction fields with
  | nil => simp [Value.haveJson]
  | cons field fields ih =>
    obtain ⟨name, value⟩ := field
    rw [Value.haveJson, Bool.and_eq_true, ih, List.forall_mem_cons]

theorem areJson_channels {channels : List Int} (h : ∀ n ∈ channels, 0 ≤ n ∧ n ≤ maxChannel) :
    Value.areJson (channels.map .int) := by
  induction channels with
  | nil => rfl
  | cons n channels ih =>
    have hn := h n (List.mem_cons_self ..)
    have hcount : Decimal.digitCount n.natAbs ≤ 3 := by
      unfold Decimal.digitCount
      rw [← String.length_toList, Nat.toList_repr]
      rw [Nat.length_toDigits_le_iff (by norm_num) (by norm_num)]
      unfold maxChannel at hn
      omega
    have hdigits : Decimal.digitCount n.natAbs ≤ Text.maxIntegerDigits := hcount.trans (by decide)
    have hrest := ih fun n' hn' => h n' (List.mem_cons_of_mem _ hn')
    simp [Value.areJson, Value.isJson, hdigits, hrest]

theorem isJson_default (field : Field) : (({} : Settings).get field).isJson := by
  cases field <;> decide

theorem hasChannels_toValue (color : Color) : HasChannels color.toValue :=
  ⟨color.toList.map fun byte => (byte.toNat : Int), by simp [Color.toValue]⟩

theorem hasChannels_default (hfield : field ∈ Field.colors) : HasChannels (({} : Settings).get field) := by
  cases field with
  | background | gradientStart | gradientEnd => exact hasChannels_toValue _
  | _ => simp [Field.colors, Field.all, Field.reading] at hfield

theorem exists_channels_of_ofValue (hkeys : fields.keys.Nodup) (h : ofValue (.object fields) = .ok s)
    (hfield : field ∈ Field.colors) :
    ∃ channels : List Int,
      s.get field = .list (channels.map .int) ∧ ∀ n ∈ channels, 0 ≤ n ∧ n ≤ maxChannel := by
  obtain ⟨read, hread, hsettings, hvalid⟩ := ofValue_eq_ok h
  rw [readColors_eq] at hread
  obtain ⟨hkeys', hcolor, -⟩ := foldlM_readColorAt_eq_ok hread
  have hchannels : HasChannels (s.get field) := by
    rw [get_ofFields (hkeys' ▸ hkeys) hsettings]
    cases hfound : Entries.get? read field.name with
    | none => exact hasChannels_default hfield
    | some color => exact hcolor field hfield color hfound
  obtain ⟨channels, hchannels⟩ := hchannels
  exact ⟨channels, hchannels, of_checkColor (of_validate hvalid hfield) hchannels⟩

theorem isStorable_of_ofValue (hdata : (Value.object fields).isJson) (h : ofValue (.object fields) = .ok s) :
    s.IsStorable := by
  obtain ⟨read, hread, hsettings, -⟩ := ofValue_eq_ok h
  rw [readColors_eq] at hread
  obtain ⟨hkeys, -, hother⟩ := foldlM_readColorAt_eq_ok hread
  simp only [Value.isJson, Bool.and_eq_true, decide_eq_true_eq] at hdata
  refine ⟨fun field hfield => exists_channels_of_ofValue hdata.2 h hfield, ?_⟩
  intro field
  by_cases hfield : field ∈ Field.colors
  . obtain ⟨channels, hchannels, hbytes⟩ := exists_channels_of_ofValue hdata.2 h hfield
    rw [hchannels]
    exact areJson_channels hbytes
  . rw [get_ofFields (hkeys ▸ hdata.2) hsettings, hother field hfield]
    cases hfound : Entries.get? fields field.name with
    | none => exact isJson_default field
    | some value => exact haveJson_iff.1 hdata.1 _ (Entries.mem_of_get?_eq_some hfound)

def named (s : Settings) : Fields :=
  Field.all.map fun field => (field.name, s.get field)

theorem keys_named (s : Settings) : s.named.keys = Field.all.map Field.name := by
  simp [Entries.keys, named]

theorem get?_named (s : Settings) (field : Field) : s.named.get? field.name = some (s.get field) := by
  cases field <;> rfl

theorem mem_colors : field ∈ Field.colors ↔ field.reading = .color := by
  cases field <;> decide

theorem toFields_eq (h : s.IsStorable) : s.toFields = .ok s.named := by
  apply Result.mapM_eq_ok
  intro field _
  simp only
  split
  . next hcolor =>
    obtain ⟨channels, hchannels, -⟩ := h.colors field (mem_colors.2 hcolor)
    rw [hchannels]
    rfl
  . rfl

theorem readColor_channels (channels : List Int) :
    readColor (.list (channels.map .int)) = .ok (.list (channels.map .int)) := by
  have hread : (channels.map Value.int).mapM Value.toInt = .ok channels := by
    rw [List.mapM_map, Result.mapM_eq_ok (g := id) (by simp)]
    rw [List.map_id]
  have helements : (Value.list (channels.map .int)).elements = .ok (channels.map .int) := rfl
  unfold readColor
  rw [helements]
  change ((channels.map Value.int).mapM Value.toInt >>= _) = _
  rw [hread]
  rfl

theorem put_of_get? {name : String} {value : Value} (h : fields.get? name = some value) :
    fields.put name value = fields := by
  induction fields with
  | nil => cases h
  | cons field fields ih =>
    obtain ⟨other, old⟩ := field
    by_cases heq : other = name
    . simp only [Entries.get?, heq, if_true, Option.some.injEq] at h
      simp [Entries.put, heq, h]
    . simp only [Entries.get?, heq, if_false] at h
      simp [Entries.put, heq, ih h]

theorem readColors_named (h : s.IsStorable) : readColors s.named = .ok s.named := by
  rw [readColors_eq]
  have hcolors : ∀ colors : List Field, (∀ field ∈ colors, field ∈ Field.colors) →
      colors.foldlM readColorAt s.named = .ok s.named := by
    intro colors hmem
    induction colors with
    | nil => rfl
    | cons field colors ih =>
      rw [List.forall_mem_cons] at hmem
      obtain ⟨channels, hchannels, -⟩ := h.colors field hmem.1
      have hstep : readColorAt s.named field = .ok s.named := by
        unfold readColorAt
        rw [get?_named, hchannels]
        simp only
        rw [readColor_channels, ← hchannels]
        change Except.ok (s.named.put field.name (s.get field)) = _
        rw [put_of_get? (get?_named s field)]
      rw [List.foldlM_cons, hstep]
      exact ih hmem.2
  exact hcolors Field.colors fun _ hmem => hmem

theorem setAll_all (s : Settings) :
    setAll {} (Field.all.map fun field => (field, s.get field)) = s := by
  cases s
  rfl

theorem ofFields_named (s : Settings) : ofFields s.named = .ok s := by
  unfold ofFields named
  rw [List.mapM_map]
  rw [Result.mapM_eq_ok (g := fun field => (field, s.get field))]
  . change Except.ok (setAll {} (Field.all.map fun field => (field, s.get field))) = _
    rw [setAll_all]
  . intro field _
    simp [Field.ofName?_name]

theorem unknownNames_eq_nil {names : List String} (h : ∀ name ∈ names, isKnown name) :
    unknownNames (names.map .text) = .ok [] := by
  unfold unknownNames
  rw [Result.filterMapM_eq_nil]
  . simp [bind, Except.bind, pure, Except.pure]
  . intro value hvalue
    obtain ⟨name, hname, rfl⟩ := List.mem_map.1 hvalue
    simp [h name hname, pure, Except.pure]

theorem ofValue_eq_of_isKnown (hnames : ∀ name ∈ fields.keys, isKnown name)
    (hread : readColors fields = .ok read) (hs : ofFields read = .ok s) :
    ofValue (.object fields) = s.validate >>= fun _ => .ok s := by
  have helements : (Value.object fields).elements = .ok (fields.keys.map .text) := by
    simp [Value.elements, Value.elements?, Entries.keys]
  have hfields : (Value.object fields).toFields = .ok fields := rfl
  unfold ofValue
  simp only [helements, hfields, unknownNames_eq_nil hnames, hread, hs, bind, Except.bind, pure,
    Except.pure, ne_eq, not_true_eq_false, if_false]

theorem ofValue_of_isKnown (hnames : ∀ name ∈ fields.keys, isKnown name)
    (hread : readColors fields = .ok read) (hs : ofFields read = .ok s) (hvalid : s.validate = .ok ()) :
    ofValue (.object fields) = .ok s := by
  rw [ofValue_eq_of_isKnown hnames hread hs, hvalid]
  rfl

theorem ofValue_named (h : s.IsStorable) (hvalid : s.validate = .ok ()) :
    ofValue (.object s.named) = .ok s := by
  refine ofValue_of_isKnown ?_ (readColors_named h) (ofFields_named s) hvalid
  intro name hname
  rw [keys_named] at hname
  obtain ⟨field, -, rfl⟩ := List.mem_map.1 hname
  simp [isKnown, Field.ofName?_name]

end Settings
end TurtleCurves
