import KrlWorkbench.Proofs.Renaming.Consistency

/-!
# Renaming and type definitions

A member behind a point is no use of a name, but an undotted word in a line that defines a type is.
So a field that shares the name of a variable is renamed with it.  The types of a document stay as
they are if the name is neither that of a type nor a word of its list (`Rename.types_unchanged`).
It may stand in such a line all the same, as the length of an array or behind a point.

The list is cut at commas and at blanks, also in strings.  Cutting does not notice a renaming: the
words are those of the same links (`TypeDefinition.forall₂_listedWords`), and a word that does not
equal the old name stays as it is.
-/

namespace KrlWorkbench

open List LineRule Text

variable {x y : Text} {links : List Link}

/-! ## Words between blanks -/

/-- Links are cut at blanks as their texts are. -/
lemma Aligned.exists_splitOn (hy : IsWord y) (h : Aligned x y links) :
    ∃ first more, first <+: links ∧ (∀ part ∈ first :: more, Aligned x y part) ∧
      Text.splitOn isBlank (oldText links) = (first :: more).map oldText ∧
      Text.splitOn isBlank (newText links) = (first :: more).map newText := by
  have hsolid : ∀ {w}, IsWord w → ∀ c ∈ w, isBlank c = false :=
    fun hw c hc => isBlank_of_isWordChar (hw.chars c hc)
  induction h with
  | nil => exact ⟨[], [], prefix_rfl, by simpa using .nil, rfl, rfl⟩
  | @sep c links hc _ ih =>
    obtain ⟨first, more, hprefix, hparts, hold, hnew⟩ := ih
    rw [oldText_sep, newText_sep, Text.splitOn, Text.splitOn, hold, hnew]
    cases hblank : isBlank c with
    | true => exact ⟨[], first :: more, nil_prefix, forall_mem_cons.mpr ⟨.nil, hparts⟩, rfl, rfl⟩
    | false =>
      obtain ⟨hfirst, hmore⟩ := forall_mem_cons.mp hparts
      exact ⟨.sep c :: first, more, cons_prefix_cons.mpr ⟨rfl, hprefix⟩,
        forall_mem_cons.mpr ⟨.sep hc hfirst, hmore⟩, rfl, rfl⟩
  -- A word has no blanks and joins the first part.
  | @word w w' links hw hw' hnext _ ih =>
    obtain ⟨first, more, hprefix, hparts, hold, hnew⟩ := ih
    obtain ⟨hfirst, hmore⟩ := forall_mem_cons.mp hparts
    have hbehind : first.head?.any Link.isWord = false := by
      cases first with
      | nil => rfl
      | cons link first =>
        obtain ⟨rest, rfl⟩ := hprefix
        exact hnext
    rw [oldText_word, newText_word, splitOn_append_solid (hsolid hw) hold,
      splitOn_append_solid (hsolid (isWord_new hy hw hw')) hnew]
    exact ⟨.word w w' :: first, more, cons_prefix_cons.mpr ⟨rfl, hprefix⟩,
      forall_mem_cons.mpr ⟨.word hw hw' hbehind hfirst, hmore⟩, rfl, rfl⟩

/-- The second text is the first with some words replaced. -/
def Respelled (x y u u' : Text) : Prop :=
  ∃ links, Aligned x y links ∧ oldText links = u ∧ newText links = u'

namespace Respelled

variable {u u' : Text} (h : Respelled x y u u')
include h

lemma stripIndex (hy : IsWord y) :
    Respelled x y (ListItem.stripIndex u) (ListItem.stripIndex u') := by
  obtain ⟨links, haligned, rfl, rfl⟩ := h
  obtain ⟨l, l', rfl, hold, hnew⟩ := haligned.cutsAlike_stripIndex hy
  exact ⟨l, haligned.append_left, hold.symm, hnew.symm⟩

lemma blankSeparated (hy : IsWord y) :
    List.Forall₂ (Respelled x y) (Text.blankSeparated u) (Text.blankSeparated u') := by
  obtain ⟨links, haligned, rfl, rfl⟩ := h
  obtain ⟨first, more, -, hparts, hold, hnew⟩ := haligned.exists_splitOn hy
  rw [Text.blankSeparated, Text.blankSeparated, hold, hnew]
  generalize first :: more = parts at hparts
  induction parts with
  | nil => exact .nil
  | cons part parts ih =>
    obtain ⟨hpart, hparts⟩ := forall_mem_cons.mp hparts
    rw [map_cons, map_cons, filter_cons, filter_cons, hpart.isEmpty_oldText,
      hpart.isEmpty_newText hy]
    split
    · exact .cons ⟨part, hpart, rfl, rfl⟩ (ih hparts)
    · exact ih hparts

lemma eq_self (hx : sameWord x u = false) (hword : IsWord u ∨ IsWord u') : u' = u := by
  obtain ⟨links, haligned, rfl, rfl⟩ := h
  have hne : links ≠ [] := by
    rintro rfl
    rcases hword with hword | hword <;> exact hword.ne_nil rfl
  have hsep : ∀ c, isWordChar c = false → Link.sep c ∉ links := by
    intro c hc hmem
    have hboth : isWordChar c = true := by
      rcases hword with hword | hword <;>
        exact hword.chars c (mem_flatMap.mpr ⟨_, hmem, mem_singleton_self c⟩)
    rw [hc] at hboth
    cases hboth
  obtain ⟨w, w', rfl, -⟩ := haligned.eq_singleton hne hsep
  cases haligned with
  | word _ hnew =>
    rcases hnew with rfl | ⟨hsame, -⟩
    · rfl
    · simp [hsame] at hx

end Respelled

/-! ## Type definitions -/

namespace TypeDefinition

/-- The words of a list of fields, without their indices. -/
def listedWords (list : Text) : List Text :=
  (ListItem.pieces 0 false list).flatMap fun item =>
    (blankSeparated item).map ListItem.stripIndex

/-- Whether the code defines a type that has the name, or has the name in its list. -/
def mentions (x code : Text) : Bool :=
  (typeDefinition.find? code).any fun found =>
    (found.text 4 :: listedWords (found.text 5)).any (sameWord x)

lemma membersOf_eq_filterMap (known : List Text) (isEnum : Bool) (list : Text) :
    membersOf known isEnum list = (listedWords list).filterMap fun name =>
      if !isIdentifier name then none
      else if !isEnum && (BuiltinType.isBuiltinType name || known.contains (upper name)) then none
      else some name := by
  rw [membersOf, listedWords, ← ListItem.map_text_split, flatMap_map, filterMap_flatMap]
  simp only [filterMap_map]
  rfl

lemma forall₂_listedWords {list list' : Text} (hy : IsWord y) (h : Renamed x y list list') :
    List.Forall₂ (Respelled x y) (listedWords list) (listedWords list') := by
  refine rel_flatMap (h.pieces hy) fun item item' hitem => ?_
  obtain ⟨links, haligned, -, rfl, rfl⟩ := hitem
  have hwords := Respelled.blankSeparated ⟨links, haligned, rfl, rfl⟩ hy
  rw [forall₂_map_left_iff, forall₂_map_right_iff]
  exact hwords.imp fun _ _ h => h.stripIndex hy

/-- Words that do not equal the old name are the same members. -/
lemma membersOf_eq_of_renamed {list list' : Text} (hy : IsWord y) (h : Renamed x y list list')
    (hfree : ∀ w ∈ listedWords list, sameWord x w = false) (known : List Text) (isEnum : Bool) :
    membersOf known isEnum list' = membersOf known isEnum list := by
  have hwords := forall₂_listedWords hy h
  rw [membersOf_eq_filterMap, membersOf_eq_filterMap]
  generalize listedWords list = words, listedWords list' = words' at hwords hfree ⊢
  induction hwords with
  | nil => rfl
  | @cons w w' words words' hw _ ih =>
    obtain ⟨hfirst, hmore⟩ := forall_mem_cons.mp hfree
    rw [filterMap_cons, filterMap_cons, ih hmore]
    by_cases hname : isIdentifier w = true ∨ isIdentifier w' = true
    · rw [hw.eq_self hfirst (hname.imp isWord_of_isIdentifier isWord_of_isIdentifier)]
    · obtain ⟨hold, hnew⟩ := not_or.mp hname
      simp [hold, hnew]

/-- Types are read off the lines one by one, and so are the names that are known. -/
lemma collect_eq_of_lines {text text' : Text} {f : Text → Text}
    (hlines : text'.lines = text.lines.map f)
    (hf : ∀ line ∈ text.lines, ∀ known, ofLine? known (f line) = ofLine? known line)
    (known : List Text) : collect text' known = collect text known := by
  have hkeys : ∀ lines, keysOf lines = (lines.filterMap (ofLine? [])).map (·.key) := by
    intro lines
    rw [keysOf, map_filterMap]
    exact filterMap_congr fun line _ => by simp [ofLine?, key, Function.comp_def]
  have hread : ∀ known, text'.lines.filterMap (ofLine? known) =
      text.lines.filterMap (ofLine? known) := by
    intro known
    rw [hlines, filterMap_map]
    exact filterMap_congr fun line hline => hf line hline known
  simp only [collect, hkeys, hread]

end TypeDefinition

namespace Rename

lemma flatMap_edits (uri : Uri) (text x y : Text) :
    (edits [⟨uri, text⟩] x y).flatMap (·.2) =
      lineEdits text y (usesInLine x) text.lines.zipIdx := by
  by_cases hnil : lineEdits text y (usesInLine x) text.lines.zipIdx = []
  · have hnone := map_references_singleton ⟨uri, text⟩ x y
    rw [hnil, map_eq_nil_iff] at hnone
    simp [edits, hnone, hnil]
  · simp [edits_eq hnil]

lemma ofLine?_eq_of_not_mentions {line line' : Text} (hnames : ProperNames x y)
    (h : Renamed x y (Code.codePart line) (Code.codePart line')) (hline : '\n' ∉ Code.codePart line)
    (hfree : TypeDefinition.mentions x (Code.codePart line) = false) (known : List Text) :
    TypeDefinition.ofLine? known line' = TypeDefinition.ofLine? known line := by
  rw [TypeDefinition.ofLine?, TypeDefinition.ofLine?]
  rcases cases_of_rel (find?_renamed hnames h hline .typeDefinition (by decide)) with
    ⟨hfound, hfound'⟩ | ⟨m, m', hfound, hfound', hm⟩
  · rw [hfound, hfound']
  · obtain ⟨m₀, hm₀, hchars, hname⟩ :=
      exists_of_rel_some (typeDefinition_related hnames h hline) hfound
    obtain rfl := Option.some.inj (hfound'.symm.trans hm₀)
    simp only [TypeDefinition.mentions, hfound, Option.any_some, any_cons, Bool.or_eq_false_iff,
      any_eq_false, Bool.not_eq_true] at hfree
    rw [rename, if_neg (by simp [hfree.1])] at hname
    have hmembers := TypeDefinition.membersOf_eq_of_renamed (isWord_of_isIdentifier hnames.new)
      (hm.text (by decide)) hfree.2
    simp only [hfound, hfound', Option.map_some, hname, hm.isEnumeration_eq hnames, hmembers]

/-- **Renaming leaves types alone** as long as the name is neither that of a type nor a word of its
list, where the two are compared as uses are: up to case in all of Unicode, and not in strings. -/
theorem types_unchanged (uri : Uri) (text x y : Text) (hx : isFree x = true)
    (hy : check y = .ok ()) (hfree : ∀ line ∈ text.lines,
      TypeDefinition.mentions x (Code.codePart line) = true → usesInLine x line = []) :
    ∃ text', text.applyEdits ((edits [⟨uri, text⟩] x y).flatMap (·.2)) = some text' ∧
      (SymbolTable.collect text').types = (SymbolTable.collect text).types := by
  have hnames := properNames hx (isFree_of_check hy)
  obtain ⟨text', happly, hlines, -⟩ := exists_applyEdits_uses hnames.old hnames.new text
  rw [flatMap_edits]
  refine ⟨text', happly, TypeDefinition.collect_eq_of_lines hlines (fun line hline known => ?_) []⟩
  cases hmentions : TypeDefinition.mentions x (Code.codePart line) with
  | true => rw [hfree line hline hmentions, substitute_nil]
  | false =>
    have hcode := (renamed_codePart hnames.old (isWord_of_isIdentifier hnames.new) line).2
    exact ofLine?_eq_of_not_mentions hnames hcode (lineFeed_notMem_codePart hline) hmentions known

/-- A variable that is the length of an array, and a structure with a field of another name. -/
theorem types_unchanged_variable :
    let text : Text := "DECL INT x\nSTRUC s INT v[x]\nx = 1".toList
    let es := (edits [⟨default, text⟩] "x".toList "y".toList).flatMap (·.2)
    es.length = 3 ∧ ∃ text', text.applyEdits es = some text' ∧
      (SymbolTable.collect text').types = [⟨"s".toList, ["v".toList], false⟩] := by
  intro text es
  have htypes : (SymbolTable.collect text).types = [⟨"s".toList, ["v".toList], false⟩] := by
    decide +kernel
  rw [← htypes]
  exact ⟨by decide +kernel, types_unchanged default text "x".toList "y".toList (by decide +kernel)
    (by decide +kernel) (by decide +kernel)⟩

/-- A variable, and a structure with a field that shares its name. -/
theorem field_renamed :
    let text : Text := "DECL INT x\nSTRUC s INT x".toList
    ∃ text', text.applyEdits ((edits [⟨default, text⟩] "x".toList "y".toList).flatMap (·.2)) =
        some text' ∧
      (SymbolTable.collect text).types = [⟨"s".toList, ["x".toList], false⟩] ∧
      (SymbolTable.collect text').types = [⟨"s".toList, ["y".toList], false⟩] :=
  ⟨"DECL INT y\nSTRUC s INT y".toList, by decide +kernel⟩

end Rename
end KrlWorkbench
