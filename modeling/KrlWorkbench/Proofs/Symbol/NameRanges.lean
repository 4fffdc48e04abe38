import KrlWorkbench.Proofs.Symbol.CodeOnly
import KrlWorkbench.Proofs.Symbol.DeclaredKeys
import KrlWorkbench.Proofs.Symbol.LineForms

/-!
# Ranges point at names

A declaration's range is put together from a line number, the byte column at which its rule found
the name and the length of the name; behind a type it takes the place of the list, of the item in
the list and of the name in the item.  All of these are places of pieces (`Capture.Inside`), so the
range of a declaration is the range of a piece of the line's code, and the piece is the declared
name (`Symbol.PlacedIn`).

A table keeps this.  Adding a declaration leaves the older ones as they are, but for a parameter,
which takes the range of a later declaration of its name and keeps its own spelling
(`Symbol.NamedBy`).
-/

namespace KrlWorkbench

open List Text

variable {piece : Text} {c : Capture} {found : List Symbol} {new s : Symbol}

/-! ## Ranges of pieces -/

/-- Both ends of the range name places of one line, and the text between them is `piece`. -/
def Range.Holds (r : Range) (text piece : Text) : Prop :=
  ∃ start stop, text.offset r.start = some start ∧ text.offset r.stop = some stop ∧
    start ≤ stop ∧ r.start.line = r.stop.line ∧ slice start stop text = piece

lemma holds_span {text lead rest : Text} {number : Nat}
    (h : text.lines[number]? = some (lead ++ (piece ++ rest))) :
    (text.span number (byteLength lead) (byteLength piece)).Holds text piece := by
  obtain ⟨before, after, htext, hstart, -⟩ := exists_lineStart h
  obtain ⟨hfrom, hto⟩ := offset_span h hstart
  refine ⟨_, _, hfrom, hto, Nat.le_add_right _ _, ?_, ?_⟩
  · rw [span_eq h (by simp)]
  · have hsplit : text = (before ++ lead) ++ (piece ++ (rest ++ after)) := by rw [htext]; simp
    rw [slice, Nat.add_sub_cancel_left, ← byteLength_append, hsplit, dropBytes_append,
      takeBytes_append]

/-- A piece of the code of a line is what its range holds. -/
lemma Capture.Inside.holds_span {text code : Text} {line : Nat}
    (h : (text.lines.map Code.codePart)[line]? = some code) (hc : c.Inside code) :
    (text.span line c.start (byteLength c.text)).Holds text c.text := by
  rw [getElem?_map, Option.map_eq_some_iff] at h
  obtain ⟨raw, hraw, rfl⟩ := h
  obtain ⟨lead, rest, hcode, hlead⟩ := hc
  obtain ⟨comment, hcomment⟩ := Code.codePart_isPrefix raw
  have hline : text.lines[line]? = some (lead ++ (c.text ++ (rest ++ comment))) := by
    rw [hraw, ← hcomment, hcode]
    simp
  rw [hlead]
  exact KrlWorkbench.holds_span hline

lemma Capture.Inside.trans {text : Text} {start : Nat} (hc : c.Inside text)
    (h : Capture.Inside ⟨start, piece⟩ c.text) : Capture.Inside ⟨c.start + start, piece⟩ text := by
  obtain ⟨a, b, htext, ha⟩ := hc
  obtain ⟨a', b', hpiece, ha'⟩ := h
  refine ⟨a ++ a', b' ++ b, ?_, ?_⟩
  · rw [htext, hpiece]
    simp
  · rw [byteLength_append, ← ha, ← ha']

namespace ListItem

lemma inside_name {item : ListItem} (hname : item.name ≠ []) :
    Capture.Inside ⟨indentBytes item.text, item.name⟩ item.text := by
  have hinitial : (splitInitial item.text).1 <+: item.text := splitInitialFrom_isPrefix 0 false _
  have hstart : item.name <+: trimStart (splitInitial item.text).1 :=
    (stripIndex_isPrefix _).trans (trim_prefix_trimStart _)
  have hsolid : trimStart (splitInitial item.text).1 ≠ [] := by
    intro hnil
    rw [hnil] at hstart
    exact hname (prefix_nil.mp hstart)
  obtain ⟨rest, hrest⟩ := hinitial
  obtain ⟨tail, htail⟩ := hstart
  refine ⟨(splitInitial item.text).1.takeWhile isBlank, tail ++ rest, ?_, ?_⟩
  · conv_lhs => rw [← hrest, ← takeWhile_append_trimStart (splitInitial item.text).1, ← htail]
    simp
  · rw [indentBytes, takeWhile_isBlank_of_isPrefix ⟨rest, hrest⟩ hsolid]

end ListItem

/-! ## What a line declares -/

/-- The range of the symbol, if it has one, is that of a piece of the code of line `line`, and the
piece is its name. -/
def Symbol.PlacedIn (text : Text) (line : Nat) (code : Text) (s : Symbol) : Prop :=
  ∀ r, s.range = some r →
    ∃ c : Capture, c.Inside code ∧ c.text = s.name ∧ r = text.span line c.start (byteLength c.text)

section Line

variable {text code : Text} {line : Nat}

lemma Routine.placedIn_of_ofHeader? {routine : Routine}
    (h : ofHeader? text code line = some routine) : routine.symbol.PlacedIn text line code := by
  obtain ⟨_, _, name, _, hname, rfl⟩ := exists_ofParts h
  intro r hr
  exact ⟨name, hname, rfl, (Option.some.inj hr).symm⟩

namespace Symbol

/-- Every form of declaration puts the range on the name. -/
lemma placedIn_of_mem_ofLine {types : List Text}
    (hs : s ∈ ofLine text types line code) : s.PlacedIn text line code := by
  intro r hr
  cases fromLine_of_mem hs with
  | parameter => cases hr
  | enumMember => cases hr
  | @record name hname => exact ⟨name, hname, rfl, (Option.some.inj hr).symm⟩
  | @signal _ name hfound hgroup =>
    exact ⟨name, (Pattern.matches_of_find? hfound).inside.group? hgroup, rfl,
      (Option.some.inj hr).symm⟩
  | var hparts hitem hname =>
    have hinside := (TypedList.inside_of_ofCode? hparts).trans
      ((ListItem.inside_of_mem_split hitem).trans
        (ListItem.inside_name (ne_nil_of_isIdentifier hname)))
    exact ⟨_, hinside, rfl, (Option.some.inj hr).symm⟩

lemma PlacedIn.holds (h : s.PlacedIn text line code)
    (hline : (text.lines.map Code.codePart)[line]? = some code) {r : Range}
    (hr : s.range = some r) : r.Holds text s.name := by
  obtain ⟨c, hinside, hname, rfl⟩ := h r hr
  rw [← hname]
  exact hinside.holds_span hline

end Symbol
end Line

/-! ## What a table keeps -/

section Invariant

variable {P Q : Symbol → Prop} (hnew : ∀ s, Q s → P s)
  (hrefine : ∀ old new, P old → Q new → old.key = new.key → P (old.refine new))
include hnew hrefine

lemma Symbol.forall_mem_add (h : Q new) (hfound : ∀ s ∈ found, P s) : ∀ s ∈ new.add found, P s := by
  induction found with
  | nil => exact forall_mem_singleton.mpr (hnew _ h)
  | cons old rest ih =>
    obtain ⟨hold, hrest⟩ := forall_mem_cons.mp hfound
    rw [add]
    split
    case isTrue hkey =>
      exact forall_mem_cons.mpr ⟨hrefine old new hold h (beq_iff_eq.mp hkey), hrest⟩
    case isFalse => exact forall_mem_cons.mpr ⟨hold, ih hrest⟩

/-- What all declarations of a document keep: it holds of each alone, and a later declaration of the
same name does not change it. -/
lemma Symbol.forall_mem_foldl_add {symbols : List Symbol} (h : ∀ s ∈ symbols, Q s)
    (hfound : ∀ s ∈ found, P s) :
    ∀ s ∈ symbols.foldl (fun found s => s.add found) found, P s := by
  induction symbols generalizing found with
  | nil => exact hfound
  | cons new rest ih =>
    refine ih (forall_mem_cons.mp h).2 ?_
    exact forall_mem_add hnew hrefine (h new mem_cons_self) hfound

end Invariant

/-- The range of the symbol, if it has one, holds its name: as it is spelled, or for a parameter up
to the case of letters. -/
def Symbol.NamedBy (text : Text) (s : Symbol) : Prop :=
  ∀ r, s.range = some r →
    ∃ name, r.Holds text name ∧ sameName name s.name = true ∧
      (s.kind ≠ .parameter → name = s.name)

namespace Symbol

variable {text : Text}

/-- A later declaration of the same name moves the range of a parameter, and of nothing else. -/
lemma NamedBy.refine {old : Symbol} (hold : old.NamedBy text)
    (hnew : ∀ r, new.range = some r → r.Holds text new.name) (hkey : old.key = new.key) :
    (old.refine new).NamedBy text := by
  rw [Symbol.refine]
  split
  case isTrue h =>
    have hparameter : old.kind = .parameter := by
      simp only [Bool.and_eq_true, decide_eq_true_eq] at h
      exact h.1
    intro r hr
    refine ⟨new.name, hnew r hr, ?_, fun hne => absurd hparameter hne⟩
    rw [sameName, beq_iff_eq]
    exact hkey.symm
  case isFalse => exact hold

lemma namedBy_of_holds (hs : ∀ r, s.range = some r → r.Holds text s.name) :
    s.NamedBy text :=
  fun r hr => ⟨s.name, hs r hr, by simp [sameName], fun _ => rfl⟩

end Symbol

lemma Routine.mem_of_mem_foldl_addFirst {routines found : List Routine} {r : Routine}
    (h : r ∈ routines.foldl addFirst found) : r ∈ routines ∨ r ∈ found := by
  obtain ⟨kept, heq, hkept⟩ := @exists_foldl_keepFirst_eq_append _ key routines found
  have hmem : r ∈ found ++ kept := heq ▸ h
  exact (mem_append.mp hmem).symm.imp_left (hkept.subset ·)

namespace SymbolTable

/-- **Ranges point at names.**  The range of every symbol and routine of a document's table names
two places of one line, and between them stands the name; for a parameter, which takes the place of
a declaration in the body, up to the case of letters. -/
theorem collect_ranges_hold (text : Text) :
    (∀ s ∈ (collect text).symbols, ∀ r, s.range = some r →
      ∃ name, r.Holds text name ∧ sameName name s.name = true ∧
        (s.kind ≠ .parameter → name = s.name)) ∧
    (∀ f ∈ (collect text).routines, ∀ r, f.symbol.range = some r → r.Holds text f.name) := by
  constructor
  · refine Symbol.forall_mem_foldl_add (P := Symbol.NamedBy text) (fun _ => Symbol.namedBy_of_holds)
      (fun _ _ => Symbol.NamedBy.refine) (fun s hs r hr => ?_) (by simp)
    obtain ⟨⟨line, code⟩, hline, hs⟩ := mem_flatMap.mp hs
    exact (Symbol.placedIn_of_mem_ofLine hs).holds (getElem?_of_mem_codeLines hline) hr
  · intro f hf r hr
    rcases Routine.mem_of_mem_foldl_addFirst hf with hf | hf
    · obtain ⟨⟨line, code⟩, hline, hf⟩ := mem_filterMap.mp hf
      exact (Routine.placedIn_of_ofHeader? hf).holds (getElem?_of_mem_codeLines hline) hr
    · simp at hf

/-- A parameter that a body declares in other letters, behind a string with a comma and characters
of two and four bytes. -/
theorem collect_ranges_hold_parameter :
    let text : Text := "DEF check(COUNT:IN)\r\nDECL CHAR s[]=\"ü,😀\", Count[3] ; c".toList
    let count : Symbol :=
      ⟨"COUNT".toList, .parameter, some "CHAR".toList, some ⟨⟨1, 22⟩, ⟨1, 27⟩⟩, false, none⟩
    let check : Symbol :=
      ⟨"check".toList, .function, none, some ⟨⟨0, 4⟩, ⟨0, 9⟩⟩, false, none⟩
    count ∈ (collect text).symbols ∧
      (∃ name, Range.Holds ⟨⟨1, 22⟩, ⟨1, 27⟩⟩ text name ∧ sameName name count.name = true) ∧
      check ∈ (collect text).routines.map (·.symbol) ∧
      Range.Holds ⟨⟨0, 4⟩, ⟨0, 9⟩⟩ text "check".toList := by
  intro text count check
  have hcount : count ∈ (collect text).symbols := by decide +kernel
  have hcheck : check ∈ (collect text).routines.map (·.symbol) := by decide +kernel
  obtain ⟨hsymbols, hroutines⟩ := collect_ranges_hold text
  obtain ⟨name, hname, hsame, -⟩ := hsymbols count hcount _ rfl
  obtain ⟨f, hf, hsymbol⟩ := mem_map.mp hcheck
  have hholds := hroutines f hf _ (by rw [hsymbol])
  rw [Routine.name, hsymbol] at hholds
  exact ⟨hcount, ⟨name, hname, hsame⟩, hcheck, hholds⟩

end SymbolTable
end KrlWorkbench
