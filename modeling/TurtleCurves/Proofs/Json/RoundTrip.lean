import TurtleCurves.Proofs.Decimal.Reading
import TurtleCurves.Proofs.Json.Text

/-!
This module contains the round trip of values through their written form. It holds for every layout that
puts nothing but space between the tokens, and for every value whose objects have distinct names and
whose whole numbers are not too long to be read. As a value the undefined double is itself.
-/

namespace TurtleCurves

mutual

/-- Whether a value is read back from its written form. -/
def Value.isJson : Value → Bool
  | .int n => Decimal.digitCount n.natAbs ≤ Text.maxIntegerDigits
  | .list items => Value.areJson items
  | .object fields => Value.haveJson fields && (Entries.keys fields).Nodup
  | _ => true

def Value.areJson : List Value → Bool
  | [] => true
  | item :: rest => item.isJson && Value.areJson rest

def Value.haveJson : List (String × Value) → Bool
  | [] => true
  | (_, value) :: rest => value.isJson && Value.haveJson rest

end

namespace Json

variable {c : Char} {n : Nat} {cs rest spaces : List Char} {bound depth : Nat} {layout : Layout}
variable {v : Value}

def Layout.isSpaced : Layout → Bool
  | .oneLine => true
  | .lines unit => unit.toList.all isSpace

theorem skipSpace_append (hspaces : spaces.all isSpace) (cs : List Char) :
    skipSpace (spaces ++ cs) = skipSpace cs := by
  unfold skipSpace
  rw [List.dropWhile_append_of_pos]
  simpa using hspaces

theorem skipSpace_cons (h : isSpace c = false) : skipSpace (c :: cs) = c :: cs := by
  simp [skipSpace, h]

theorem isSpace_lineBreak (h : layout.isSpaced) (depth : Nat) :
    (layout.lineBreak depth).toList.all isSpace := by
  cases layout with
  | oneLine => rfl
  | lines unit =>
    simp only [Layout.isSpaced, List.all_eq_true] at h
    simp only [Layout.lineBreak, String.toList_append, String.toList_join, List.all_append,
      Bool.and_eq_true]
    refine ⟨by rfl, List.all_eq_true.2 ?_⟩
    intro c hc
    obtain ⟨s, hs, hc⟩ := List.mem_flatMap.1 hc
    rw [List.eq_of_mem_replicate hs] at hc
    exact h c hc

theorem toList_separator (h : layout.isSpaced) (depth : Nat) :
    ∃ spaces, (layout.separator depth).toList = ',' :: spaces ∧ spaces.all isSpace := by
  cases layout with
  | oneLine => exact ⟨[' '], by simp [Layout.separator], rfl⟩
  | lines unit =>
    refine ⟨((Layout.lines unit).lineBreak depth).toList, ?_, isSpace_lineBreak h depth⟩
    simp [Layout.separator]

theorem ends_of_isSpace (h : isSpace c) : Decimal.Ends (c :: rest) := by
  simp only [isSpace, Bool.or_eq_true, decide_eq_true_eq] at h
  rcases h with ((rfl | rfl) | rfl) | rfl <;> exact Decimal.ends_cons (by decide) (by decide) (by decide)

theorem readWhole_head {found : List Char × List Char} (h : Decimal.readWhole cs = some found) :
    ∃ c rest, cs = c :: rest ∧ c.isDigit := by
  cases cs with
  | nil => cases h
  | cons c rest =>
    refine ⟨c, rest, rfl, ?_⟩
    by_contra hdigit
    have hspan : Decimal.spanDigits (c :: rest) = ([], c :: rest) := by
      simp [Decimal.spanDigits, hdigit]
    have hzero : c ≠ '0' := by
      rintro rfl
      exact hdigit rfl
    simp [Decimal.readWhole, hspan, hzero] at h

theorem readLiteral_head {found : Decimal.Literal × List Char} (h : Decimal.readLiteral cs = some found) :
    ∃ negative c rest, cs = Decimal.signed negative (c :: rest) ∧ c.isDigit := by
  unfold Decimal.readLiteral at h
  split at h
  next negative after heq =>
    split at h
    . cases h
    . next whole tail hwhole =>
      obtain ⟨c, rest, hcs, hdigit⟩ := readWhole_head hwhole
      split at heq
      . cases heq
        exact ⟨true, c, rest, by rw [hcs]; rfl, hdigit⟩
      . cases heq
        exact ⟨false, c, rest, hcs, hdigit⟩

theorem names_words :
    words.map Prod.fst = ["null", "true", "false", "NaN", "Infinity", "-Infinity"] := rfl

theorem readWord?_eq_none (h : ∀ word ∈ words.map Prod.fst, word.toList.isPrefixOf cs = false) :
    readWord? cs = none := by
  unfold readWord?
  rw [List.findSome?_eq_none_iff]
  intro entry hentry
  have hword := h entry.1 (List.mem_map_of_mem hentry)
  simp only [hword, Bool.false_eq_true, if_false]

theorem readWord?_number (negative : Bool) (h : c.isDigit) :
    readWord? (Decimal.signed negative (c :: rest)) = none := by
  have hne {d : Char} (hd : d.isDigit = false) : (d == c) = false := by
    rw [beq_eq_false_iff_ne]
    rintro rfl
    rw [hd] at h
    cases h
  apply readWord?_eq_none
  rw [names_words]
  cases negative <;> simp [Decimal.signed, List.isPrefixOf_cons_cons, hne]

theorem readValue_number {literal : Decimal.Literal}
    (h : Decimal.readLiteral cs = some (literal, rest)) :
    readValue (bound + 1) cs = readNumber cs := by
  obtain ⟨negative, c, tail, rfl, hdigit⟩ := readLiteral_head h
  have hword : readWord? (Decimal.signed negative (c :: tail)) = none :=
    readWord?_number negative hdigit
  have hne {d : Char} (hd : d.isDigit = false) : c ≠ d := by
    rintro rfl
    rw [hd] at hdigit
    cases hdigit
  cases negative with
  | true =>
    simp only [Decimal.signed, if_true] at hword ⊢
    rw [readValue]
    . rw [hword]
    all_goals simp
  | false =>
    simp only [Decimal.signed, Bool.false_eq_true, if_false] at hword ⊢
    rw [readValue]
    . rw [hword]
    all_goals simp [hne]

def infinity (negative : Bool) : Float :=
  if negative then -1.0 / 0.0 else 1.0 / 0.0

theorem exists_cons_of_readValue {found : Value × List Char} (h : readValue bound cs = .ok found) :
    ∃ c rest, cs = c :: rest ∧ isSpace c = false ∧ c ≠ ']' := by
  -- A value begins neither with space nor with a bracket that closes a list.
  cases bound with
  | zero => cases h
  | succ bound =>
    cases cs with
    | nil => cases h
    | cons c rest =>
      have hbracket : c ≠ ']' := by
        rintro rfl
        cases h
      have hspace : isSpace c = false := by
        by_contra hspace
        simp only [isSpace, Bool.not_eq_false, Bool.or_eq_true, decide_eq_true_eq] at hspace
        rcases hspace with ((rfl | rfl) | rfl) | rfl <;> cases h
      exact ⟨c, rest, rfl, hspace, hbracket⟩

theorem skipSpace_of_readValue {found : Value × List Char} (h : readValue bound cs = .ok found) :
    skipSpace cs = cs := by
  obtain ⟨c, rest, rfl, hspace, -⟩ := exists_cons_of_readValue h
  exact skipSpace_cons hspace

theorem readValue_int {k : Int} (h : Decimal.digitCount k.natAbs ≤ Text.maxIntegerDigits)
    (hrest : Decimal.Ends rest) :
    readValue (bound + 1) ((toString k).toList ++ rest) = .ok (.int k, rest) := by
  have htext : (toString k).toList = Decimal.signed (k < 0) (Nat.toDigits 10 k.natAbs) := by
    cases k with
    | ofNat k => exact Nat.toList_repr
    | negSucc k =>
      change ("-" ++ Nat.repr (k + 1)).toList = _
      rw [String.toList_append, Nat.toList_repr]
      simp [Decimal.signed]
  have hcount : (Nat.toDigits 10 k.natAbs).length ≤ Text.maxIntegerDigits := by
    rw [← Nat.toList_repr, String.length_toList]
    exact h
  have hread := Decimal.readLiteral_signed (k < 0) (Decimal.isWhole_toDigits k.natAbs) hrest.noDigit
    (Decimal.readFraction_of_head?_ne hrest.noPoint) (Decimal.readExponent_of_head? hrest.noPower)
  rw [htext, Decimal.signed_append]
  rw [readValue_number hread]
  unfold readNumber
  rw [hread]
  simp only [Decimal.Literal.isWhole, Decimal.Literal.toInt, List.isEmpty_nil, Option.isNone_none,
    Decimal.digitsValue_toDigits, Bool.and_self, Bool.not_true, Bool.false_eq_true, if_false,
    decide_eq_true_eq]
  rw [if_neg (by omega)]
  congr 3
  split <;> omega

open Float.Model.UnpackedFloat in
theorem toModel_infinity (sign : Sign) :
    (infinity (sign == .negative)).toModel = .pack (.infinity sign) := by
  cases sign <;> decide +kernel

theorem eq_infinity {x : Float} {negative : Bool} (h : Binary.view x = .infinite negative) :
    x = infinity negative := by
  unfold Binary.view at h
  split at h
  . cases h
  . next sign hunpack =>
    cases h
    exact (Decimal.eq_of_unpack hunpack (toModel_infinity sign)).symm
  . cases h
  . cases h

theorem toModel_undefined : (0.0 / 0.0 : Float).toModel = .pack .notANumber := by
  decide +kernel

theorem eq_undefined {x : Float} (h : Binary.view x = .undefined) : x = 0.0 / 0.0 := by
  unfold Binary.view at h
  split at h
  . next hunpack => exact (Decimal.eq_of_unpack hunpack toModel_undefined).symm
  . cases h
  . cases h
  . cases h

theorem readValue_float (x : Float) (hrest : Decimal.Ends rest) :
    readValue (bound + 1) ((writeFloat x).toList ++ rest) = .ok (.float x, rest) := by
  unfold writeFloat
  cases hview : Binary.view x with
  | undefined =>
    rw [eq_undefined hview]
    rfl
  | infinite negative =>
    rw [eq_infinity hview]
    cases negative <;> rfl
  | finite b =>
    obtain ⟨literal, hread, hwhole, hfloat⟩ := Decimal.readLiteral_shown hview hrest
    simp only
    rw [readValue_number hread]
    unfold readNumber
    rw [hread]
    simp only [hwhole, hfloat, Bool.not_false, if_true]

theorem readValue_text (s : String) (rest : List Char) :
    readValue (bound + 1) ((writeText s).toList ++ rest) = .ok (.text s, rest) := by
  obtain ⟨body, hbody, hread⟩ := readText_writeText s rest
  rw [hbody]
  rw [readValue]
  rw [hread]
  rfl

def itemsChars (layout : Layout) (depth : Nat) (items : List Value) : List Char :=
  ((layout.separator depth).intercalate (writeItems layout depth items)).toList

theorem itemsChars_singleton (item : Value) :
    itemsChars layout depth [item] = (writeAt layout depth item).toList := by
  unfold itemsChars
  simp only [writeItems]
  rw [String.intercalate_singleton]

theorem itemsChars_cons_cons (item next : Value) (items : List Value) :
    itemsChars layout depth (item :: next :: items)
      =
    (writeAt layout depth item).toList ++ ((layout.separator depth).toList ++
      itemsChars layout depth (next :: items)) := by
  unfold itemsChars
  simp only [writeItems]
  rw [String.intercalate_cons_cons]
  rw [String.toList_append, String.toList_append, List.append_assoc]

def fieldsChars (layout : Layout) (depth : Nat) (fields : List (String × Value)) : List Char :=
  ((layout.separator depth).intercalate (writeFields layout depth fields)).toList

def fieldChars (layout : Layout) (depth : Nat) (name : String) (value : Value) : List Char :=
  (writeText name).toList ++ (':' :: ' ' :: (writeAt layout depth value).toList)

theorem length_fieldChars (name : String) (value : Value) :
    (fieldChars layout depth name value).length
      =
    (writeText name).toList.length + ((writeAt layout depth value).toList.length + 2) := by
  simp [fieldChars]

theorem fieldsChars_singleton (name : String) (value : Value) :
    fieldsChars layout depth [(name, value)] = fieldChars layout depth name value := by
  unfold fieldsChars fieldChars
  simp only [writeFields]
  rw [String.intercalate_singleton]
  simp

theorem fieldsChars_cons_cons (name : String) (value : Value) (next : String × Value)
    (fields : List (String × Value)) :
    fieldsChars layout depth ((name, value) :: next :: fields)
      =
    fieldChars layout depth name value ++ ((layout.separator depth).toList ++
      fieldsChars layout depth (next :: fields)) := by
  unfold fieldsChars fieldChars
  simp only [writeFields]
  rw [String.intercalate_cons_cons]
  simp

theorem toList_enclose {opening closing : String} {entries : List String} (h : entries ≠ []) :
    (layout.enclose depth opening closing entries).toList
      =
    opening.toList ++ ((layout.lineBreak (depth + 1)).toList ++
      (((layout.separator (depth + 1)).intercalate entries).toList ++
        ((layout.lineBreak depth).toList ++ closing.toList))) := by
  unfold Layout.enclose
  have hentries : entries.isEmpty = false := by simpa using h
  simp [hentries]

theorem toList_enclose_nil (opening closing : String) :
    (layout.enclose depth opening closing []).toList = opening.toList ++ closing.toList := by
  simp [Layout.enclose]

theorem toList_writeAt_list (item : Value) (items : List Value) :
    (writeAt layout depth (.list (item :: items))).toList
      =
    '[' :: ((layout.lineBreak (depth + 1)).toList ++ (itemsChars layout (depth + 1) (item :: items) ++
      ((layout.lineBreak depth).toList ++ [']']))) := by
  simp only [writeAt]
  rw [toList_enclose (by simp [writeItems])]
  rfl

theorem toList_writeAt_object (field : String × Value) (fields : List (String × Value)) :
    (writeAt layout depth (.object (field :: fields))).toList
      =
    '\x7b' :: ((layout.lineBreak (depth + 1)).toList ++ (fieldsChars layout (depth + 1) (field :: fields) ++
      ((layout.lineBreak depth).toList ++ ['\x7d']))) := by
  obtain ⟨name, value⟩ := field
  simp only [writeAt]
  rw [toList_enclose (by simp [writeFields])]
  rfl

structure Closes (closing : Char) (tail rest : List Char) : Prop where
  ends : Decimal.Ends tail
  skip : skipSpace tail = closing :: rest

theorem closes_lineBreak {closing : Char} (h : layout.isSpaced) (hends : ∀ rest, Decimal.Ends (closing :: rest))
    (hclosing : isSpace closing = false) (depth : Nat) (rest : List Char) :
    Closes closing ((layout.lineBreak depth).toList ++ closing :: rest) rest := by
  have hspaces := isSpace_lineBreak h depth
  constructor
  . cases hbreak : (layout.lineBreak depth).toList with
    | nil => exact hends rest
    | cons c spaces =>
      rw [hbreak, List.all_cons, Bool.and_eq_true] at hspaces
      exact ends_of_isSpace hspaces.1
  . rw [skipSpace_append hspaces]
    exact skipSpace_cons hclosing

theorem put_of_not_mem {seen : Fields} {name : String} (value : Value) (h : name ∉ seen.keys) :
    seen.put name value = seen ++ [(name, value)] := by
  induction seen with
  | nil => rfl
  | cons field rest ih =>
    obtain ⟨other, old⟩ := field
    simp only [Entries.keys, List.map_cons, List.mem_cons, not_or] at h
    have hother : other ≠ name := fun heq => h.1 heq.symm
    simp [Entries.put, hother, ih h.2]

theorem not_mem_keys {seen fields : Fields} {name : String} {value : Value}
    (h : (Entries.keys (seen ++ (name, value) :: fields)).Nodup) : name ∉ seen.keys := by
  unfold Entries.keys at h ⊢
  rw [List.map_append, List.nodup_append] at h
  intro hmem
  exact h.2.2 name hmem name (by simp) rfl

theorem readItems_last {seen : List Value} {tail : List Char} (hspaces : spaces.all isSpace)
    (hread : readValue bound (cs ++ tail) = .ok (v, tail)) (htail : Closes ']' tail rest) :
    readItems (bound + 1) seen (spaces ++ (cs ++ tail)) = .ok (.list (seen.reverse ++ [v]), rest) := by
  -- After an item the reader is at the bracket or at the comma.
  rw [readItems]
  rw [skipSpace_append hspaces, skipSpace_of_readValue hread, hread]
  simp only [bind, Except.bind, htail.skip, pure, Except.pure, List.reverse_cons]

theorem readItems_more {seen : List Value} {tail : List Char} (hspaces : spaces.all isSpace)
    (hread : readValue bound (cs ++ ',' :: tail) = .ok (v, ',' :: tail)) :
    readItems (bound + 1) seen (spaces ++ (cs ++ ',' :: tail)) = readItems bound (v :: seen) tail := by
  rw [readItems]
  rw [skipSpace_append hspaces, skipSpace_of_readValue hread, hread]
  have hcomma : skipSpace (',' :: tail) = ',' :: tail := skipSpace_cons rfl
  simp only [bind, Except.bind, hcomma]

theorem ends_comma : Decimal.Ends (',' :: rest) :=
  Decimal.ends_cons (by decide) (by decide) (by decide)

theorem ends_bracket : Decimal.Ends (']' :: rest) :=
  Decimal.ends_cons (by decide) (by decide) (by decide)

theorem ends_brace : Decimal.Ends ('\x7d' :: rest) :=
  Decimal.ends_cons (by decide) (by decide) (by decide)

theorem readValue_list (bound : Nat) (hspaces : spaces.all isSpace)
    (hhead : ∃ c rest, cs = c :: rest ∧ isSpace c = false ∧ c ≠ ']') :
    readValue (bound + 1) ('[' :: (spaces ++ cs)) = readItems bound [] cs := by
  obtain ⟨c, rest, rfl, hspace, hc⟩ := hhead
  rw [readValue]
  rw [skipSpace_append hspaces, skipSpace_cons hspace]
  split
  . next heq =>
    cases heq
    exact absurd rfl hc
  . rfl

theorem exists_itemsChars (layout : Layout) (depth : Nat) (item : Value) (items : List Value) :
    ∃ more, itemsChars layout depth (item :: items) = (writeAt layout depth item).toList ++ more := by
  cases items with
  | nil => exact ⟨[], by rw [itemsChars_singleton, List.append_nil]⟩
  | cons next items => exact ⟨_, itemsChars_cons_cons item next items⟩

theorem exists_cons_itemsChars {item : Value} (items : List Value) (tail : List Char)
    (hread : readValue bound ((writeAt layout depth item).toList ++ []) = .ok (item, [])) :
    ∃ c rest, itemsChars layout depth (item :: items) ++ tail = c :: rest ∧ isSpace c = false ∧
      c ≠ ']' := by
  obtain ⟨more, hmore⟩ := exists_itemsChars layout depth item items
  obtain ⟨c, rest, hchars, hspace, hc⟩ := exists_cons_of_readValue hread
  rw [List.append_nil] at hchars
  refine ⟨c, rest ++ more ++ tail, ?_, hspace, hc⟩
  rw [hmore, hchars]
  simp

theorem readFields_field {seen : Fields} {tail : List Char} {name : String}
    (hspaces : spaces.all isSpace)
    (hread : readValue bound ((writeAt layout depth v).toList ++ tail) = .ok (v, tail)) :
    readFields (bound + 1) seen (spaces ++ (fieldChars layout depth name v ++ tail))
      =
    match skipSpace tail with
    | ',' :: rest => readFields bound (seen.put name v) rest
    | '\x7d' :: rest => .ok (.object (seen.put name v), rest)
    | _ => .error .malformedJson := by
  obtain ⟨body, hbody, htext⟩ :=
    readText_writeText name (':' :: ' ' :: ((writeAt layout depth v).toList ++ tail))
  have hchars : fieldChars layout depth name v ++ tail = '"' :: body := by
    rw [← hbody]
    simp [fieldChars]
  have hcolon (rest : List Char) : skipSpace (':' :: rest) = ':' :: rest := skipSpace_cons rfl
  have hblank (rest : List Char) : skipSpace (' ' :: rest) = skipSpace rest := rfl
  have hquote : skipSpace ('"' :: body) = '"' :: body := skipSpace_cons rfl
  rw [hchars]
  rw [readFields]
  rw [skipSpace_append hspaces, hquote]
  simp only [htext, hcolon, hblank, skipSpace_of_readValue hread, hread, bind, Except.bind]
  rfl

theorem readFields_last {seen : Fields} {tail : List Char} {name : String} (hspaces : spaces.all isSpace)
    (hread : readValue bound ((writeAt layout depth v).toList ++ tail) = .ok (v, tail))
    (htail : Closes '\x7d' tail rest) :
    readFields (bound + 1) seen (spaces ++ (fieldChars layout depth name v ++ tail))
      =
    .ok (.object (seen.put name v), rest) := by
  rw [readFields_field hspaces hread]
  rw [htail.skip]
  rfl

theorem readFields_more {seen : Fields} {tail : List Char} {name : String} (hspaces : spaces.all isSpace)
    (hread : readValue bound ((writeAt layout depth v).toList ++ ',' :: tail) = .ok (v, ',' :: tail)) :
    readFields (bound + 1) seen (spaces ++ (fieldChars layout depth name v ++ ',' :: tail))
      =
    readFields bound (seen.put name v) tail := by
  have hcomma : skipSpace (',' :: tail) = ',' :: tail := skipSpace_cons rfl
  rw [readFields_field hspaces hread]
  rw [hcomma]
  rfl

theorem exists_fieldsChars (layout : Layout) (depth : Nat) (field : String × Value) (fields : List (String × Value)) :
    ∃ more, fieldsChars layout depth (field :: fields) = '"' :: more := by
  obtain ⟨name, value⟩ := field
  have hname := toList_writeText name
  cases fields with
  | nil =>
    rw [fieldsChars_singleton, fieldChars, hname]
    exact ⟨_, rfl⟩
  | cons next fields =>
    rw [fieldsChars_cons_cons, fieldChars, hname]
    exact ⟨_, rfl⟩

theorem readValue_object (bound : Nat) (cs : List Char) (hspaces : spaces.all isSpace) :
    readValue (bound + 1) ('\x7b' :: (spaces ++ '"' :: cs)) = readFields bound [] ('"' :: cs) := by
  have hquote : skipSpace ('"' :: cs) = '"' :: cs := skipSpace_cons rfl
  rw [readValue]
  rw [skipSpace_append hspaces, hquote]
  rfl

mutual

-- Each bracket, item and name takes one step of the bound and at least one character of the text, so a
-- bound above the length of the text is never used up.
theorem readValue_writeAt (hl : layout.isSpaced) (v : Value) (depth bound : Nat) (rest : List Char)
    (hv : v.isJson) (hbound : (writeAt layout depth v).toList.length < bound) (hrest : Decimal.Ends rest) :
    readValue bound ((writeAt layout depth v).toList ++ rest) = .ok (v, rest) := by
  obtain ⟨bound, rfl⟩ : ∃ k, bound = k + 1 := ⟨bound - 1, by omega⟩
  match v with
  | .null =>
    simp only [writeAt]
    rfl
  | .bool true =>
    simp only [writeAt]
    rfl
  | .bool false =>
    simp only [writeAt]
    rfl
  | .int n =>
    simp only [writeAt]
    exact readValue_int (by simpa [Value.isJson] using hv) hrest
  | .float x =>
    simp only [writeAt]
    exact readValue_float _ hrest
  | .text s =>
    simp only [writeAt]
    exact readValue_text s rest
  | .list [] =>
    simp only [writeAt, writeItems, toList_enclose_nil]
    rfl
  | .list (item :: items) =>
    have hitems : item.isJson ∧ Value.areJson items := by
      simpa [Value.isJson, Value.areJson] using hv
    obtain ⟨more, hmore⟩ := exists_itemsChars layout (depth + 1) item items
    have hlength := congrArg List.length hmore
    rw [toList_writeAt_list] at hbound ⊢
    simp only [List.length_cons, List.length_append, List.length_nil] at hbound hlength
    have hitem := readValue_writeAt hl item (depth + 1) bound [] hitems.1 (by omega) Decimal.ends_nil
    have htail := closes_lineBreak hl (fun _ => ends_bracket) rfl depth rest
    have hread := readItems_writeItems hl (item :: items) (depth + 1) bound [] [] _ rest (by simp)
      (by simpa [Value.areJson] using hitems) (by omega) rfl htail
    have hhead := exists_cons_itemsChars items ((layout.lineBreak depth).toList ++ ']' :: rest) hitem
    have hlist := readValue_list bound (isSpace_lineBreak hl (depth + 1)) hhead
    rw [List.nil_append] at hread
    rw [hread] at hlist
    simpa using hlist
  | .object [] =>
    simp only [writeAt, writeFields, toList_enclose_nil]
    rfl
  | .object (field :: fields) =>
    have hfields : Value.haveJson (field :: fields) ∧ (Entries.keys (field :: fields)).Nodup := by
      simpa [Value.isJson] using hv
    obtain ⟨more, hmore⟩ := exists_fieldsChars layout (depth + 1) field fields
    rw [toList_writeAt_object] at hbound ⊢
    simp only [List.length_cons, List.length_append, List.length_nil] at hbound
    have htail := closes_lineBreak hl (fun _ => ends_brace) rfl depth rest
    have hread := readFields_writeFields hl (field :: fields) (depth + 1) bound [] [] _ rest (by simp)
      hfields.1 hfields.2 (by omega) rfl htail
    have hobject := readValue_object bound (more ++ ((layout.lineBreak depth).toList ++ '\x7d' :: rest))
      (isSpace_lineBreak hl (depth + 1))
    rw [hmore] at hread ⊢
    rw [List.nil_append, List.cons_append] at hread
    rw [hread] at hobject
    simpa using hobject

theorem readItems_writeItems (hl : layout.isSpaced) (items : List Value) (depth bound : Nat)
    (seen : List Value) (spaces tail rest : List Char) (hne : items ≠ []) (hitems : Value.areJson items)
    (hbound : (itemsChars layout depth items).length + 1 < bound) (hspaces : spaces.all isSpace)
    (htail : Closes ']' tail rest) :
    readItems bound seen (spaces ++ (itemsChars layout depth items ++ tail))
      =
    .ok (.list (seen.reverse ++ items), rest) := by
  obtain ⟨bound, rfl⟩ : ∃ k, bound = k + 1 := ⟨bound - 1, by omega⟩
  match items with
  | [] => exact absurd rfl hne
  | [item] =>
    simp only [Value.areJson, Bool.and_true] at hitems
    rw [itemsChars_singleton] at hbound ⊢
    have hread := readValue_writeAt hl item depth bound tail hitems (by omega) htail.ends
    exact readItems_last hspaces hread htail
  | item :: next :: items =>
    simp only [Value.areJson, Bool.and_eq_true] at hitems
    obtain ⟨after, hseparator, hafter⟩ := toList_separator hl depth
    rw [itemsChars_cons_cons, hseparator] at hbound ⊢
    simp only [List.length_append, List.length_cons] at hbound
    have hread := readValue_writeAt hl item depth bound
      (',' :: (after ++ (itemsChars layout depth (next :: items) ++ tail))) hitems.1 (by omega) ends_comma
    have hmore := readItems_writeItems hl (next :: items) depth bound (item :: seen) after tail rest
      (by simp) (by simpa [Value.areJson] using hitems.2) (by omega) hafter htail
    have hchars : (writeAt layout depth item).toList ++ (',' :: after ++
          itemsChars layout depth (next :: items)) ++ tail
        = (writeAt layout depth item).toList ++
          ',' :: (after ++ (itemsChars layout depth (next :: items) ++ tail)) := by
      simp
    rw [hchars]
    rw [readItems_more hspaces hread]
    rw [hmore]
    simp

theorem readFields_writeFields (hl : layout.isSpaced) (fields : List (String × Value))
    (depth bound : Nat) (seen : Fields) (spaces tail rest : List Char) (hne : fields ≠ [])
    (hfields : Value.haveJson fields) (hnames : (Entries.keys (seen ++ fields)).Nodup)
    (hbound : (fieldsChars layout depth fields).length + 1 < bound) (hspaces : spaces.all isSpace)
    (htail : Closes '\x7d' tail rest) :
    readFields bound seen (spaces ++ (fieldsChars layout depth fields ++ tail))
      =
    .ok (.object (seen ++ fields), rest) := by
  obtain ⟨bound, rfl⟩ : ∃ k, bound = k + 1 := ⟨bound - 1, by omega⟩
  match fields with
  | [] => exact absurd rfl hne
  | [(name, value)] =>
    simp only [Value.haveJson, Bool.and_true] at hfields
    rw [fieldsChars_singleton] at hbound ⊢
    rw [length_fieldChars] at hbound
    have hread := readValue_writeAt hl value depth bound tail hfields (by omega) htail.ends
    rw [readFields_last hspaces hread htail]
    rw [put_of_not_mem value (not_mem_keys hnames)]
  | (name, value) :: next :: fields =>
    simp only [Value.haveJson, Bool.and_eq_true] at hfields
    obtain ⟨after, hseparator, hafter⟩ := toList_separator hl depth
    rw [fieldsChars_cons_cons, hseparator] at hbound ⊢
    simp only [List.length_append, List.length_cons, length_fieldChars] at hbound
    have hread := readValue_writeAt hl value depth bound
      (',' :: (after ++ (fieldsChars layout depth (next :: fields) ++ tail))) hfields.1 (by omega)
      ends_comma
    have hput := put_of_not_mem value (not_mem_keys hnames)
    have hmore := readFields_writeFields hl (next :: fields) depth bound (seen ++ [(name, value)]) after
      tail rest (by simp) (by simpa [Value.haveJson] using hfields.2) (by simpa using hnames) (by omega)
      hafter htail
    have hchars : fieldChars layout depth name value ++ (',' :: after ++
          fieldsChars layout depth (next :: fields)) ++ tail
        = fieldChars layout depth name value ++
          ',' :: (after ++ (fieldsChars layout depth (next :: fields) ++ tail)) := by
      simp
    rw [hchars]
    rw [readFields_more hspaces hread]
    rw [hput, hmore]
    simp

end

theorem ends_of_all_isSpace (h : spaces.all isSpace) : Decimal.Ends spaces := by
  cases spaces with
  | nil => exact Decimal.ends_nil
  | cons c spaces =>
    rw [List.all_cons, Bool.and_eq_true] at h
    exact ends_of_isSpace h.1

/-- A value is read back from its written form, whatever space follows it. -/
theorem read_write (hl : layout.isSpaced) (hv : v.isJson) {space : String}
    (hspace : space.toList.all isSpace) : read (write layout v ++ space) = .ok v := by
  have hread := readValue_writeAt hl v 0 (2 * (write layout v ++ space).toList.length + 2)
    space.toList hv (by simp [write]; omega) (ends_of_all_isSpace hspace)
  have hempty : skipSpace space.toList = [] := by
    have := skipSpace_append hspace []
    simpa [skipSpace] using this
  unfold read
  simp only [write, String.toList_append] at hread ⊢
  rw [skipSpace_of_readValue hread, hread]
  simp only [bind, Except.bind, hempty, List.isEmpty_nil, if_true, pure, Except.pure]

end Json
end TurtleCurves
