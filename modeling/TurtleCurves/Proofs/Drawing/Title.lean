import TurtleCurves.Proofs.Drawing.Agreement

/-!
This module contains the title of a drawing in the format SVG. It is written with entities for the characters
that begin or end a mark or an entity, so that nothing in it can be taken for a mark and the title is read back
as it was.
-/

namespace TurtleCurves
namespace Svg

variable {c d : Char} {cs image rest : List Char} {path : Path Float} {settings : Settings} {precision : Value}

/-- The characters that stand for one character of a title. -/
inductive Escapes : Char → List Char → Prop
  | ampersand : Escapes '&' ['&', 'a', 'm', 'p', ';']
  | opening : Escapes '<' ['&', 'l', 't', ';']
  | closing : Escapes '>' ['&', 'g', 't', ';']
  | plain {c : Char} : c ≠ '&' → c ≠ '<' → c ≠ '>' → Escapes c [c]

theorem escapes_escapeChar (c : Char) : Escapes c (escapeChar c) := by
  unfold escapeChar
  split
  . exact .ampersand
  . exact .opening
  . exact .closing
  . next hampersand hopening hclosing => exact .plain hampersand hopening hclosing

def unescape : List Char → List Char
  | [] => []
  | '&' :: 'a' :: 'm' :: 'p' :: ';' :: rest => '&' :: unescape rest
  | '&' :: 'l' :: 't' :: ';' :: rest => '<' :: unescape rest
  | '&' :: 'g' :: 't' :: ';' :: rest => '>' :: unescape rest
  | c :: rest => c :: unescape rest

theorem unescape_cons (h : c ≠ '&') (rest : List Char) : unescape (c :: rest) = c :: unescape rest := by
  rw [unescape]
  . rintro _ rfl
    exact absurd rfl h
  . rintro _ rfl
    exact absurd rfl h
  . rintro _ rfl
    exact absurd rfl h

theorem Escapes.unescape_append (h : Escapes c cs) (rest : List Char) :
    unescape (cs ++ rest) = c :: unescape rest := by
  cases h with
  | ampersand | opening | closing => rfl
  | plain hampersand => exact unescape_cons hampersand rest

theorem unescape_flatMap (title : List Char) : unescape (title.flatMap escapeChar) = title := by
  induction title with
  | nil => rfl
  | cons c title ih =>
    rw [List.flatMap_cons]
    rw [(escapes_escapeChar c).unescape_append]
    rw [ih]

def entities : List (List Char) :=
  ["&amp;".toList, "&lt;".toList, "&gt;".toList]

/-- Nothing in the text begins or ends a mark, and whatever looks like an entity is one. -/
structure IsContent (cs : List Char) : Prop where
  noOpening : '<' ∉ cs
  noClosing : '>' ∉ cs
  entity : ∀ rest, '&' :: rest <:+ cs → ∃ entity ∈ entities, entity <+: '&' :: rest

theorem isContent_nil : IsContent [] := by
  refine ⟨List.not_mem_nil, List.not_mem_nil, ?_⟩
  intro rest h
  cases List.suffix_nil.1 h

theorem suffix_of_suffix_append (hcs : '&' ∉ cs) (h : '&' :: rest <:+ cs ++ image) : '&' :: rest <:+ image := by
  induction cs with
  | nil => exact h
  | cons c cs ih =>
    rw [List.mem_cons, not_or] at hcs
    rw [List.cons_append, List.suffix_cons_iff] at h
    rcases h with heq | h
    . cases heq
      exact absurd rfl hcs.1
    . exact ih hcs.2 h

theorem IsContent.plain (h : IsContent rest) (hampersand : c ≠ '&') (hopening : c ≠ '<') (hclosing : c ≠ '>') :
    IsContent (c :: rest) where
  noOpening := List.not_mem_cons_of_ne_of_not_mem hopening.symm h.noOpening
  noClosing := List.not_mem_cons_of_ne_of_not_mem hclosing.symm h.noClosing
  entity after hafter := by
    have hcs : '&' ∉ [c] := by simpa using hampersand.symm
    exact h.entity after (suffix_of_suffix_append hcs hafter)

theorem not_mem_entity_append {name : List Char} (hampersand : c ≠ '&') (hname : c ∉ name) (hrest : c ∉ rest) :
    c ∉ '&' :: name ++ rest := by
  rw [List.cons_append, List.mem_cons, List.mem_append, not_or, not_or]
  exact ⟨hampersand, hname, hrest⟩

theorem IsContent.entity_append (h : IsContent rest) {name : List Char} (hentity : '&' :: name ∈ entities)
    (hname : '&' ∉ name ∧ '<' ∉ name ∧ '>' ∉ name) : IsContent ('&' :: name ++ rest) where
  noOpening := not_mem_entity_append (by decide) hname.2.1 h.noOpening
  noClosing := not_mem_entity_append (by decide) hname.2.2 h.noClosing
  entity after hafter := by
  -- An entity has no ampersand but the one that it starts with.
    rw [List.cons_append, List.suffix_cons_iff] at hafter
    rcases hafter with heq | hafter
    . rw [heq]
      exact ⟨_, hentity, List.prefix_append ('&' :: name) rest⟩
    . exact h.entity after (suffix_of_suffix_append hname.1 hafter)

theorem Escapes.isContent_append (h : Escapes c cs) (hrest : IsContent rest) : IsContent (cs ++ rest) := by
  cases h with
  | ampersand => exact hrest.entity_append (by decide) (by decide)
  | opening => exact hrest.entity_append (by decide) (by decide)
  | closing => exact hrest.entity_append (by decide) (by decide)
  | plain hampersand hopening hclosing => exact hrest.plain hampersand hopening hclosing

theorem isContent_flatMap (title : List Char) : IsContent (title.flatMap escapeChar) := by
  induction title with
  | nil => exact isContent_nil
  | cons c title ih =>
    rw [List.flatMap_cons]
    exact (escapes_escapeChar c).isContent_append ih

def replaceAll (c : Char) (image : List Char) (cs : List Char) : List Char :=
  cs.flatMap fun d => if d = c then image else [d]

/-- Writes the entities in three passes: the ampersands first, so that those of the entities stay. -/
def escapeInTurn (cs : List Char) : List Char :=
  replaceAll '>' "&gt;".toList (replaceAll '<' "&lt;".toList (replaceAll '&' "&amp;".toList cs))

theorem Escapes.eq_escapeInTurn (h : Escapes c cs) : cs = escapeInTurn [c] := by
  cases h with
  | ampersand | opening | closing => decide
  | plain hampersand hopening hclosing =>
    simp [escapeInTurn, replaceAll, hampersand, hopening, hclosing]

theorem escapeInTurn_cons (c : Char) (cs : List Char) :
    escapeInTurn (c :: cs) = escapeInTurn [c] ++ escapeInTurn cs := by
  unfold escapeInTurn replaceAll
  simp only [List.flatMap_cons, List.flatMap_append, List.flatMap_nil, List.append_nil]

theorem flatMap_escapeChar_eq (title : List Char) : title.flatMap escapeChar = escapeInTurn title := by
  induction title with
  | nil => rfl
  | cons c title ih =>
    rw [List.flatMap_cons, ih]
    rw [(escapes_escapeChar c).eq_escapeInTurn]
    rw [← escapeInTurn_cons]

theorem toList_escape (title : String) : (escape title).toList = title.toList.flatMap escapeChar :=
  String.toList_ofList

theorem unescape_escape (title : String) : unescape (escape title).toList = title.toList := by
  rw [toList_escape]
  exact unescape_flatMap _

theorem escape_injective : Function.Injective escape := by
  intro title other h
  have hdecoded := congrArg (fun text => unescape text.toList) h
  simp only [unescape_escape] at hdecoded
  exact String.toList_injective hdecoded

theorem getElem?_lines_title {title : String} {ls : List String} (hne : title ≠ "")
    (h : lines path settings (.text title) precision = .ok ls) :
    ls[2]? = some ("  <title>" ++ escape title ++ "</title>") := by
  have htitle : titleLines (.text title) = .ok ["  <title>" ++ escape title ++ "</title>"] := by
    unfold titleLines
    rw [if_pos (by simpa [Value.isSet] using hne)]
  unfold lines at h
  simp only [Result.bind_eq_ok, htitle] at h
  obtain ⟨_, -, _, -, _, -, _, -, _, -, _, -, _, -, _, -, titles, ⟨⟩, _, -, ⟨⟩⟩ := h
  rfl

/--
A title is written with nothing in it that could be taken for a mark, and is read back as it was, so that
different titles are written differently. It is written as if the three characters were replaced in turn.
-/
theorem escape_keeps_title (title : String) :
    IsContent (escape title).toList ∧ unescape (escape title).toList = title.toList ∧
    (∀ other, escape other = escape title ↔ other = title) ∧
    (escape title).toList = escapeInTurn title.toList ∧
    ∀ path settings precision name store after, title ≠ "" →
      (save path name settings (.text title) precision).perform store = (.ok (), after) →
      ∃ ls, after.find? name = some (.file (.text ("\n".intercalate ls ++ "\n"))) ∧
        ls[2]? = some ("  <title>" ++ escape title ++ "</title>") := by
  refine ⟨?_, unescape_escape title, fun _ => escape_injective.eq_iff, ?_, ?_⟩
  . rw [toList_escape]
    exact isContent_flatMap _
  . rw [toList_escape]
    exact flatMap_escapeChar_eq _
  . intro path settings precision name store after hne hsave
    obtain ⟨ls, hlines, hafter⟩ := find?_of_perform_save hsave
    exact ⟨ls, hafter, getElem?_lines_title hne hlines⟩

theorem escape_keeps_title_entity :
    ∃ ls after,
      (save speckledPath speckledName smallSettings (.text "x<y &lt;") (.int 6)).perform {} = (.ok (), after) ∧
      after.find? speckledName = some (.file (.text ("\n".intercalate ls ++ "\n"))) ∧
      ls[2]? = some "  <title>x&lt;y &amp;lt;</title>" ∧
      unescape "x&lt;y &amp;lt;".toList = "x<y &lt;".toList := by
  obtain ⟨written, hlines⟩ : ∃ written,
      lines speckledPath smallSettings (.text "x<y &lt;") (.int 6) = .ok written :=
    Result.exists_of_isOk (by decide +kernel)
  obtain ⟨after, hsave⟩ : ∃ after,
      (save speckledPath speckledName smallSettings (.text "x<y &lt;") (.int 6)).perform {} = (.ok (), after) := by
    unfold save
    rw [hlines]
    exact ⟨_, rfl⟩
  have hescape : escape "x<y &lt;" = "x&lt;y &amp;lt;" := by decide
  have htitle := escape_keeps_title "x<y &lt;"
  rw [hescape] at htitle
  obtain ⟨ls, hafter, hline⟩ := htitle.2.2.2.2 _ _ _ _ _ _ (by decide) hsave
  exact ⟨ls, after, hsave, hafter, hline, htitle.2.1⟩

end Svg
end TurtleCurves
