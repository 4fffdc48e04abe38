import KrlWorkbench.Proofs.Scope.InnermostBlock
import KrlWorkbench.Proofs.Symbol.FirstDeclaration
import KrlWorkbench.Proofs.Symbol.NameRanges
import KrlWorkbench.Service.Definition
import KrlWorkbench.Service.Hover

/-!
# Definitions in the enclosing block

What is shown about a variable is collected from the lines of the block around the position.  Where
it is defined is searched in the block by the shape of lines, then among the labels, then in the
table of the document.  So if the block declares a variable or a signal, both lead into the block
when the search finds the declaring line, which says `DECL` or `SIGNAL`
(`Definition.isSome_inBlock?_of_declared`), or when nothing outside the block stands in for it
(`Window.Unrivalled.exists_symbol?`).  Else the definition may be a variable of another routine.
-/

namespace KrlWorkbench

open List Code SymbolTable Text

variable {line text : Text} {number : Nat} {r : Range} {s : Symbol} {table : SymbolTable}

/-! ## The lines of a window -/

namespace Window

variable {lines : List Text} {w : Window}

lemma bounds_of_around? (h : around? lines number = some w) :
    w.start ≤ number ∧ number ≤ w.stop ∧ number < lines.length := by
  obtain ⟨hstart, hstop, hlt, -⟩ := bounds_of_ofMarks? h
  rw [length_map] at hlt
  exact ⟨hstart, hstop, Nat.lt_of_le_of_lt hstop hlt⟩

/-- The lines of a window. -/
def linesOf (w : Window) (lines : List Text) : List Text :=
  (lines.drop w.start).take (w.stop - w.start + 1)

lemma exists_append_linesOf (w : Window) (lines : List Text) :
    ∃ below, lines = lines.take w.start ++ (w.linesOf lines ++ below) := by
  refine ⟨(lines.drop w.start).drop (w.stop - w.start + 1), ?_⟩
  rw [linesOf, take_append_drop, take_append_drop]

lemma getElem?_of_linesOf (hw : w.start ≤ w.stop) {i : Nat}
    (h : (w.linesOf lines)[i]? = some line) :
    lines[w.start + i]? = some line ∧ w.contains (w.start + i) = true := by
  rw [linesOf, getElem?_take] at h
  split_ifs at h with hi
  rw [getElem?_drop] at h
  exact ⟨h, contains_iff.mpr ⟨Nat.le_add_right _ _, by omega⟩⟩

end Window

namespace Text

lemma lines_intercalate {ls : List Text} (hne : ls ≠ []) (h : ∀ l ∈ ls, NoBreak l) :
    lines (['\n'].intercalate ls) = ls := by
  induction ls with
  | nil => exact absurd rfl hne
  | cons l ls ih =>
    have hl := h l mem_cons_self
    cases ls with
    | nil =>
      rw [intercalate_singleton]
      exact lines_of_noBreak hl
    | cons next ls =>
      rw [intercalate_cons_cons, append_assoc, lines_append_break hl (.inl rfl),
        ih (cons_ne_nil _ _) (forall_mem_cons.mp h).2]

lemma line_span {column length : Nat} (hline : text.lines[number]? = some line)
    (h : column + length ≤ byteLength (codePart line)) :
    (text.span number column length).start.line = number := by
  have hle := byteLength_le_of_isPrefix (codePart_isPrefix line)
  rw [span_eq hline (h.trans hle)]

end Text

/-- A symbol with a place stands in the line that declares it. -/
lemma Symbol.line_of_mem_ofLine {types : List Text} (hline : text.lines[number]? = some line)
    (hs : s ∈ ofLine text types number (codePart line)) (hr : s.range = some r) :
    r.start.line = number := by
  obtain ⟨c, hinside, -, rfl⟩ := placedIn_of_mem_ofLine hs r hr
  exact line_span hline hinside.stop_le

/-! ## What the searches find -/

namespace Declaration

variable {n text : Text} {w : Window}

lemma of_inText? {path : Path} {kind : SearchKind} {found : Declaration}
    (h : inText? n kind path text (some w) = some found) :
    found.path = path ∧ w.contains found.range.start.line = true := by
  obtain ⟨⟨line, number⟩, -, h⟩ := exists_of_findSome?_eq_some h
  dsimp only at h
  split_ifs at h with hw
  obtain ⟨piece, -, rfl⟩ := Option.map_eq_some_iff.mp h
  exact ⟨rfl, hw⟩

lemma isSome_inText? (path : Path) (hline : text.lines[number]? = some line)
    (hw : w.contains number = true) (hname : (nameIn? n .var line).isSome = true) :
    (inText? n .var path text (some w)).isSome = true := by
  rw [inText?, findSome?_isSome_iff]
  refine ⟨(line, number), mk_mem_zipIdx_iff_getElem?.mpr hline, ?_⟩
  have hall : (some w).all (·.contains number) = true := hw
  dsimp only
  rw [if_pos hall, Option.isSome_map]
  exact hname

end Declaration

namespace Definition

variable {text n : Text} {uri : Uri} {w : Window}

lemma line_of_parameter? {header : Nat} (h : parameter? text table header n = some r) :
    r.start.line = header := by
  simp only [parameter?, Option.bind_eq_bind, Option.bind_eq_some_iff] at h
  obtain ⟨routine, -, h⟩ := h
  split_ifs at h
  obtain ⟨line, hline, h⟩ := Option.bind_eq_some_iff.mp h
  split_ifs at h
  obtain ⟨found, hfound, h⟩ := Option.bind_eq_some_iff.mp h
  obtain rfl := Option.some.inj h
  -- The list is what the code ends in, and the name stands in the list.
  have hinside := (Pattern.matches_of_find? hfound).inside.whole.stop_le
  rw [Capture.stop] at hinside
  have hcode := congrArg byteLength
    (takeWhile_append_dropWhile (p := (· != '(')) (l := codePart line))
  rw [byteLength_append] at hcode
  exact line_span hline (by omega)

lemma of_label? (h : label? text n = some r) :
    ∃ number line label, text.lines[number]? = some line ∧
      labelOf? (codePart line) = some label ∧ sameName label n = true ∧ r.start.line = number := by
  obtain ⟨⟨line, number⟩, hmem, h⟩ := exists_of_findSome?_eq_some h
  have hline := mk_mem_zipIdx_iff_getElem?.mp hmem
  obtain ⟨label, hlabel, h⟩ := Option.bind_eq_some_iff.mp h
  split_ifs at h with hname
  obtain rfl := Option.some.inj h
  refine ⟨number, line, label, hline, hlabel, hname, line_span hline ?_⟩
  have hle := indentBytes_add_byteLength_trim_le (prefix_refl (codePart line))
  rw [labelOf?] at hlabel
  split at hlabel
  case h_1 back hback =>
    obtain rfl := Option.some.inj hlabel
    have hcode := congrArg (byteLength ∘ List.reverse) hback
    have htrim := byteLength_le_of_isPrefix (trimEnd_isPrefix back.reverse)
    simp only [Function.comp_apply, reverse_reverse, reverse_cons, byteLength_append] at hcode
    omega
  case h_2 => simp at hlabel

/-- The location lies in a window of the document. -/
def InWindow (uri : Uri) (w : Window) (l : Location) : Prop :=
  l.uri = uri ∧ w.contains l.range.start.line = true

lemma locate?_of_path {found : Declaration} (h : found.path = uri.searchPath) :
    locate? uri found = some ⟨uri, found.range⟩ := by
  rw [locate?, if_pos]
  rw [Path.beq_iff, h]
  exact ⟨rfl, rfl⟩

lemma inWindow_of_inBlock? {kind : SearchKind} {l : Location}
    (hwindow : Window.around? text.lines number = some w)
    (h : inBlock? text uri table kind number n = some l) : InWindow uri w l := by
  simp only [inBlock?, hwindow, Option.bind_eq_bind, Option.bind_some] at h
  rcases Option.or_eq_some_iff.mp h with h | ⟨-, h⟩
  · obtain ⟨found, hfound, h⟩ := Option.bind_eq_some_iff.mp h
    obtain ⟨hpath, hw⟩ := Declaration.of_inText? hfound
    rw [locate?_of_path hpath] at h
    obtain rfl := Option.some.inj h
    exact ⟨rfl, hw⟩
  · obtain ⟨r, hr, rfl⟩ := Option.map_eq_some_iff.mp h
    obtain ⟨hstart, hstop, -⟩ := Window.bounds_of_around? hwindow
    refine ⟨rfl, ?_⟩
    show w.contains r.start.line = true
    rw [line_of_parameter? hr]
    exact Window.contains_iff.mpr ⟨Nat.le_refl _, hstart.trans hstop⟩

lemma isSome_inBlock? {i : Nat} (hwindow : Window.around? text.lines number = some w)
    (hline : text.lines[i]? = some line) (hw : w.contains i = true)
    (hname : (Declaration.nameIn? n .var line).isSome = true) :
    (inBlock? text uri table .var number n).isSome = true := by
  obtain ⟨found, hfound⟩ := Option.isSome_iff_exists.mp
    (Declaration.isSome_inText? uri.searchPath hline hw hname)
  simp only [inBlock?, hwindow, Option.bind_eq_bind, Option.bind_some, hfound,
    locate?_of_path (Declaration.of_inText? hfound).1, Option.some_or]
  rfl

end Definition

/-! ## What the block declares -/

/-- The text of a block, collected alone. -/
def Window.blockText (w : Window) (lines : List Text) : Text :=
  ['\n'].intercalate (w.linesOf lines)

section Block

variable {text n : Text} {number : Nat} {w : Window} {s : Symbol}
  (hwindow : Window.around? text.lines number = some w)
include hwindow

lemma Window.lines_blockText : (w.blockText text.lines).lines = w.linesOf text.lines := by
  obtain ⟨hstart, -, hlt⟩ := bounds_of_around? hwindow
  refine lines_intercalate ?_ ?_
  · rw [linesOf, Ne, take_eq_nil_iff, drop_eq_nil_iff]
    omega
  · intro l hl
    exact noBreak_of_mem_lines (mem_of_mem_drop (mem_of_mem_take hl))

/-- The types that a block defines are types of the document. -/
lemma Window.keysOf_linesOf_subset :
    TypeDefinition.keysOf (w.blockText text.lines).lines ⊆ TypeDefinition.keysOf text.lines := by
  rw [lines_blockText hwindow]
  intro key hkey
  obtain ⟨line, hline, hkey⟩ := mem_filterMap.mp hkey
  exact mem_filterMap.mpr ⟨line, mem_of_mem_drop (mem_of_mem_take hline), hkey⟩

/-- A variable or signal that the block declares is the first symbol of its name there. -/
lemma Hover.firstDeclared_of_inBlock? (h : inBlock? text.lines number n = some s)
    (hkind : s.kind = .var ∨ s.kind = .signal) :
    firstDeclared (w.blockText text.lines)
      (TypeDefinition.keysOf (w.blockText text.lines).lines) n 0 (w.linesOf text.lines) =
      some s := by
  have hsymbol : (collect (w.blockText text.lines)).symbol? n = some s := by
    simp only [inBlock?, hwindow, Option.bind_eq_bind, Option.bind_some] at h
    exact h
  have hrel := rel_firstDeclared_symbol? (w.blockText text.lines) n
  obtain ⟨first, hfirst, hkept⟩ := exists_of_rel_some_right hrel hsymbol
  have hparameter : first.kind ≠ .parameter := by
    rw [← hkept.kind]
    rintro hparameter
    simp [hparameter] at hkind
  rw [Window.lines_blockText hwindow] at hfirst ⊢
  rw [hfirst, hkept.same hparameter]

end Block

/-- Nothing outside the window stands in for a declaration of the name in it: no line above declares
the name, and no line outside is a label of this name. -/
structure Window.Unrivalled (w : Window) (text n : Text) : Prop where
  above : ∀ number line, text.lines[number]? = some line → number < w.start →
    ∀ s ∈ Symbol.ofLine text (TypeDefinition.keysOf text.lines) number (codePart line),
      sameName s.name n = false
  labels : ∀ number line label, text.lines[number]? = some line → w.contains number = false →
    Definition.labelOf? (codePart line) = some label → sameName label n = false

/-- If nothing stands in for it, the table of the document has the name from the block. -/
lemma Window.Unrivalled.exists_symbol? {n : Text} {w : Window} (h : w.Unrivalled text n)
    (hwindow : around? text.lines number = some w)
    (hs : Hover.inBlock? text.lines number n = some s) (hplaced : s.IsPlaced) :
    ∃ s' r, (collect text).symbol? n = some s' ∧ s'.range = some r ∧
      w.contains r.start.line = true := by
  obtain ⟨hstart, hstop, hlt⟩ := bounds_of_around? hwindow
  obtain ⟨s', hs', hplaced'⟩ := exists_placed_of_firstDeclared (keysOf_linesOf_subset hwindow)
    (Hover.firstDeclared_of_inBlock? hwindow hs hplaced.1) hplaced text w.start
  have habove : firstDeclared text (TypeDefinition.keysOf text.lines) n 0
      (text.lines.take w.start) = none := by
    by_contra hsome
    obtain ⟨first, hfirst⟩ := Option.ne_none_iff_exists'.mp hsome
    obtain ⟨i, line, hline, hname, hmem⟩ := exists_of_firstDeclared hfirst
    rw [getElem?_take] at hline
    split_ifs at hline with hi
    rw [Nat.zero_add] at hmem
    rw [h.above i line hline hi first hmem] at hname
    cases hname
  obtain ⟨below, hlines⟩ := exists_append_linesOf w text.lines
  have hlen : (text.lines.take w.start).length = w.start := length_take_of_le (by omega)
  -- The lines of the document are those above the block, those of it and those below.
  have hwhole := congrArg (firstDeclared text (TypeDefinition.keysOf text.lines) n 0) hlines
  rw [firstDeclared_append, habove, Option.none_or, firstDeclared_append, hlen, Nat.zero_add, hs',
    Option.some_or] at hwhole
  obtain ⟨s'', hsymbol, hkept⟩ := exists_of_rel_some (rel_firstDeclared_symbol? text n) hwhole
  have hparameter : s'.kind ≠ .parameter := by
    intro hparameter
    rcases hplaced'.1 with hkind | hkind <;> simp [hparameter] at hkind
  obtain rfl := hkept.same hparameter
  obtain ⟨r, hr⟩ := Option.isSome_iff_exists.mp hplaced'.2
  obtain ⟨i, line, hline, -, hmem⟩ := exists_of_firstDeclared hs'
  obtain ⟨hline, hw⟩ := getElem?_of_linesOf (hstart.trans hstop) hline
  refine ⟨s'', r, hsymbol, hr, ?_⟩
  rwa [Symbol.line_of_mem_ofLine hline hmem hr]

/-! ## The definition of a variable -/

namespace Definition

/-- The position is on the identifier `n` in code.  It is no member, no system variable and no
keyword, and names no routine and no structure. -/
structure OnPlainName (text : Text) (p : Position) (around : Surroundings) (n : Text) : Prop where
  word : ∃ place word, Place.at? text p = some place ∧ place.inCode = true ∧
    place.word? = some word ∧ word.isMember = false ∧ word.text = n
  system : n.head? ≠ some '$'
  keyword : Keyword.isKeyword n = false
  routine : (collect text).routine? n = none
  foreign : around.view.routine? n = none
  record : isRecord (collect text) around.view n = false

variable {text n : Text} {p : Position} {around : Surroundings} {uri : Uri} {w : Window}

/-- The definition is looked for in the block, among the labels and in the table, in this order. -/
lemma OnPlainName.exists_definition?_eq (h : OnPlainName text p around n) (uri : Uri) :
    ∃ elsewhere, definition? text uri p around =
      (inBlock? text uri (collect text) .var p.line n).or
        (((label? text n).map fun range => ⟨uri, range⟩).or
          (((((collect text).symbol? n).bind (·.range)).map fun range =>
            ⟨uri, range⟩).or elsewhere)) := by
  obtain ⟨place, word, hplace, hcode, hword, hmember, rfl⟩ := h.word
  have hnumber : place.number = p.line := by
    simp only [Place.at?, Option.bind_eq_bind, Option.bind_eq_some_iff] at hplace
    obtain ⟨line, -, column, -, hplace⟩ := hplace
    obtain rfl := Option.some.inj hplace
    rfl
  have hsystem : (word.text.head? == some '$') = false := by
    rw [beq_eq_false_iff_ne]
    exact h.system
  simp only [definition?, hplace, Option.bind_eq_bind, Option.bind_some, hcode, if_true, hword,
    hmember, hsystem, h.keyword, Bool.or_false, Bool.false_eq_true, if_false, h.routine, h.foreign,
    data?, h.record, hnumber]
  exact ⟨_, rfl⟩

/-- The search of the block finds a signal, and a variable in a line that says `DECL`. -/
lemma isSome_inBlock?_of_declared (uri : Uri) (table : SymbolTable)
    (hwindow : Window.around? text.lines number = some w)
    (hs : Hover.inBlock? text.lines number n = some s) (hkind : s.kind = .var ∨ s.kind = .signal)
    (hrange : s.range = some r)
    (hexplicit : s.kind = .signal ∨ ∃ line, text.lines[w.start + r.start.line]? = some line ∧
      LineRule.declKeyword.holds (codePart line) = true) :
    (inBlock? text uri table .var number n).isSome = true := by
  obtain ⟨hstart, hstop, -⟩ := Window.bounds_of_around? hwindow
  obtain ⟨i, line, hline, hname, hmem⟩ :=
    exists_of_firstDeclared (Hover.firstDeclared_of_inBlock? hwindow hs hkind)
  rw [Nat.zero_add] at hmem
  have hblock : (w.blockText text.lines).lines[i]? = some line := by
    rwa [Window.lines_blockText hwindow]
  have hnumber : r.start.line = i := Symbol.line_of_mem_ofLine hblock hmem hrange
  obtain ⟨hline, hw⟩ := Window.getElem?_of_linesOf (hstart.trans hstop) hline
  refine isSome_inBlock? hwindow hline hw ?_
  have hbreak := noBreak_of_mem_lines (mem_of_getElem? hline)
  refine Declaration.isSome_nameIn?_of_mem_ofLine hbreak hmem hname ?_
  rcases hexplicit with hsignal | ⟨line', hline', hdecl⟩
  · exact .inl hsignal
  · rw [hnumber, hline, Option.some.injEq] at hline'
    subst hline'
    exact hkind.symm.imp_right fun hvar => ⟨hvar, hdecl⟩

end Definition

/-- **The definition lies in the enclosing block.**  If the block around a position on a name
declares a variable or a signal of this name, the definition of the name is in the block, provided
that the declaration is a signal or says `DECL`, or that nothing outside stands in for it. -/
theorem definition_in_enclosing_block {text n : Text} {p : Position} {around : Surroundings}
    {w : Window} {s : Symbol} {r : Range} (uri : Uri)
    (hname : Definition.OnPlainName text p around n)
    (hwindow : Window.around? text.lines p.line = some w)
    (hs : Hover.inBlock? text.lines p.line n = some s) (hkind : s.kind = .var ∨ s.kind = .signal)
    (hrange : s.range = some r)
    (hfound : (s.kind = .signal ∨ ∃ line, text.lines[w.start + r.start.line]? = some line ∧
      LineRule.declKeyword.holds (Code.codePart line) = true) ∨ w.Unrivalled text n) :
    ∃ l, definition? text uri p around = some l ∧ l.uri = uri ∧
      w.contains l.range.start.line = true := by
  obtain ⟨elsewhere, hsearch⟩ := hname.exists_definition?_eq uri
  rw [hsearch]
  cases hblock : Definition.inBlock? text uri (SymbolTable.collect text) .var p.line n with
  | some l => exact ⟨l, rfl, Definition.inWindow_of_inBlock? hwindow hblock⟩
  | none =>
    -- The search of the block sees explicit declarations, so this one is none.
    have hunrivalled : w.Unrivalled text n := by
      refine hfound.resolve_left fun hexplicit => ?_
      have hsome := Definition.isSome_inBlock?_of_declared uri (SymbolTable.collect text) hwindow
        hs hkind hrange hexplicit
      rw [hblock] at hsome
      simp at hsome
    rw [Option.none_or]
    cases hlabel : Definition.label? text n with
    | some range =>
      obtain ⟨number, line, label, hline, hlabel, hsame, hnumber⟩ := Definition.of_label? hlabel
      refine ⟨⟨uri, range⟩, rfl, rfl, ?_⟩
      show w.contains range.start.line = true
      rw [hnumber]
      by_contra hout
      rw [Bool.not_eq_true] at hout
      rw [hunrivalled.labels number line label hline hout hlabel] at hsame
      simp at hsame
    | none =>
      have hplaced : s.IsPlaced := ⟨hkind, by rw [hrange]; rfl⟩
      obtain ⟨s', range, hsymbol, hrange', hw⟩ :=
        hunrivalled.exists_symbol? hwindow hs hplaced
      refine ⟨⟨uri, range⟩, ?_, rfl, hw⟩
      rw [hsymbol, Option.bind_some, hrange']
      rfl

/-- Two routines declare a variable of one name.  The second says `DECL`, behind a string with the
name in it, so the definition is found there. -/
theorem definition_in_enclosing_block_second :
    let text : Text :=
      "DEF a()\nINT n\nEND\nDEF b()\nDECL CHAR s[8]=\"n, n\", N[3]\nn[1] = 2\nEND".toList
    let n : Text := "n".toList
    let uri : Uri := ⟨"file".toList, some .empty, "/a.src".toList, []⟩
    let around : Surroundings := ⟨[], {}, fun _ => [], fun _ => none⟩
    let s : Symbol :=
      ⟨"N".toList, .var, some "CHAR".toList, some ⟨⟨1, 23⟩, ⟨1, 24⟩⟩, false, none⟩
    Definition.OnPlainName text ⟨5, 0⟩ around n ∧
      Window.around? text.lines 5 = some ⟨3, 6⟩ ∧ Hover.inBlock? text.lines 5 n = some s ∧
      ∃ l, definition? text uri ⟨5, 0⟩ around = some l ∧ l.uri = uri ∧
        (⟨3, 6⟩ : Window).contains l.range.start.line = true := by
  intro text n uri around s
  have hname : Definition.OnPlainName text ⟨5, 0⟩ around n := by
    refine ⟨⟨⟨text.lines, 5, "n[1] = 2".toList, 0⟩, ⟨n, 0, 1, false, none⟩, ?_, ?_, ?_, rfl, rfl⟩,
      ?_, ?_, ?_, rfl, ?_⟩ <;> decide +kernel
  have hwindow : Window.around? text.lines 5 = some ⟨3, 6⟩ := by decide +kernel
  have hs : Hover.inBlock? text.lines 5 n = some s := by decide +kernel
  have hdecl : LineRule.declKeyword.holds
      (Code.codePart "DECL CHAR s[8]=\"n, n\", N[3]".toList) = true := by decide +kernel
  have hline : text.lines[3 + 1]? = some "DECL CHAR s[8]=\"n, n\", N[3]".toList := by decide +kernel
  exact ⟨hname, hwindow, hs, definition_in_enclosing_block uri hname hwindow hs (.inl rfl) rfl
    (.inl (.inr ⟨_, hline, hdecl⟩))⟩

/-- Without `DECL` the search passes over the second declaration, and the table of the document has
the first. -/
theorem definition_outside_enclosing_block :
    let text : Text :=
      "DEF a()\nINT n\nn = 1\nEND\nDEF b()\nINT n\nn = 2\nEND\n".toList
    let n : Text := "n".toList
    let uri : Uri := ⟨"file".toList, some .empty, "/ws/a.src".toList, []⟩
    let around : Surroundings := ⟨[], {}, fun _ => [], fun _ => none⟩
    let s : Symbol :=
      ⟨n, .var, some "INT".toList, some ⟨⟨1, 4⟩, ⟨1, 5⟩⟩, false, none⟩
    Definition.OnPlainName text ⟨6, 0⟩ around n ∧
      Window.around? text.lines 6 = some ⟨4, 7⟩ ∧ Hover.inBlock? text.lines 6 n = some s ∧
      definition? text uri ⟨6, 0⟩ around = some ⟨uri, ⟨⟨1, 4⟩, ⟨1, 5⟩⟩⟩ ∧
      (⟨4, 7⟩ : Window).contains 1 = false := by
  intro text n uri around s
  have hname : Definition.OnPlainName text ⟨6, 0⟩ around n := by
    refine ⟨⟨⟨text.lines, 6, "n = 2".toList, 0⟩, ⟨n, 0, 1, false, none⟩, ?_, ?_, ?_, rfl, rfl⟩,
      ?_, ?_, ?_, rfl, ?_⟩ <;> decide +kernel
  exact ⟨hname, by decide +kernel, by decide +kernel, by decide +kernel, by decide⟩

end KrlWorkbench
