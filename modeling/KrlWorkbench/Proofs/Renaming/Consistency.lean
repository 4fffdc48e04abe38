import KrlWorkbench.Proofs.Renaming.Declarations
import KrlWorkbench.Proofs.Symbol.CodeOnly
import KrlWorkbench.Proofs.Symbol.DeclaredKeys

/-!
# Renaming is consistent

The edits of a renaming change the declared names and nothing else: of the names that a document
declares, the old one becomes the new one and the others stay.

The proof compares the document with the edited one line by line (`exists_renamedText`).  What a
document declares is then declared under its new name (`Declares.renamed`), and nothing is declared
under the old one (`Declares.sameWord_eq_false`).  That the new name differs from the old one is not
assumed; a declared name stands in the document (`Declares.exists_standsIn`), and the new name does
not.
-/

namespace KrlWorkbench

open List LineRule SymbolTable Text

variable {text x y : Text}

/-! ## Renamed documents -/

/-- Line by line the code of the new document is renamed. -/
def RenamedText (x y text text' : Text) : Prop :=
  ∃ f : Text → Text, text'.lines = text.lines.map f ∧
    ∀ line ∈ text.lines, Renamed x y (Code.codePart line) (Code.codePart (f line))

lemma lineFeed_notMem_codePart {line : Text} (h : line ∈ text.lines) :
    '\n' ∉ Code.codePart line := by
  intro hmem
  exact ((noBreak_of_mem_lines h) _ ((Code.codePart_isPrefix line).subset hmem)).1 rfl

section Document

variable {x y text text' : Text} (hnames : ProperNames x y) (hxy : sameWord x y = false)

/-- A line of code of a renamed document was one before. -/
lemma RenamedText.exists_codeLine_of_new (h : RenamedText x y text text') {number : Nat}
    {code' : Text} (hcode : (number, code') ∈ codeLines text') :
    ∃ code, Renamed x y code code' ∧ '\n' ∉ code := by
  obtain ⟨f, hlines, hf⟩ := h
  obtain ⟨line', hline', rfl, -⟩ := mem_codeLines_iff.mp hcode
  rw [hlines, getElem?_map] at hline'
  obtain ⟨line, hline, rfl⟩ := Option.map_eq_some_iff.mp hline'
  have hmem := mem_of_getElem? hline
  exact ⟨_, hf line hmem, lineFeed_notMem_codePart hmem⟩

include hnames

lemma typeDefinition_related {code code' : Text} (h : Renamed x y code code')
    (hline : '\n' ∉ code) :
    Option.Rel (fun m m' => (∀ c ∈ m.text 4, isWordChar c = true) ∧
        m'.text 4 = rename x y (m.text 4))
      (typeDefinition.find? code) (typeDefinition.find? code') := by
  rcases cases_of_rel (find?_renamed hnames h hline .typeDefinition (by decide)) with
    ⟨hfound, hfound'⟩ | ⟨m, m', hfound, hfound', hm⟩
  · rw [hfound, hfound']
    exact .none
  · have hchars : ∀ c ∈ m.text 4, isWordChar c = true := by
      rw [Match.text]
      cases hc : m.group? 4 with
      | none => simp
      | some c => exact (isWord_of_group? rfl hfound hc).chars
    rw [hfound, hfound']
    exact .some ⟨hchars,
      (hm.text (by decide)).eq_rename_of_chars (ne_nil_of_isIdentifier hnames.old) hchars⟩

lemma upper_mem_keysOf (h : RenamedText x y text text') {u u' : Text} (hu : Renamed x y u u')
    (hmem : upper u ∈ TypeDefinition.keysOf text.lines) :
    upper u' ∈ TypeDefinition.keysOf text'.lines := by
  obtain ⟨f, hlines, hf⟩ := h
  obtain ⟨line, hline, hkey⟩ := mem_filterMap.mp hmem
  obtain ⟨m, hfound, hkey⟩ := Option.map_eq_some_iff.mp hkey
  obtain ⟨m', hfound', hchars, hname⟩ := exists_of_rel_some
    (typeDefinition_related hnames (hf line hline) (lineFeed_notMem_codePart hline)) hfound
  have huchars : ∀ c ∈ u, isWordChar c = true := by
    intro c hc
    have hc' : upperChar c ∈ upper (m.text 4) := by
      rw [hkey]
      exact mem_map_of_mem hc
    obtain ⟨d, hd, hdc⟩ := mem_map.mp hc'
    rw [← isWordChar_upperChar, ← hdc, isWordChar_upperChar]
    exact hchars d hd
  have hu' := hu.eq_rename_of_chars (ne_nil_of_isIdentifier hnames.old) huchars
  refine mem_filterMap.mpr ⟨f line, ?_, ?_⟩
  · rw [hlines]
    exact mem_map_of_mem hline
  · rw [hfound', Option.map_some, hname, hu', upper_rename hkey]

/-- The lines of code of a renamed document are the renamed lines of code. -/
lemma RenamedText.exists_codeLine (h : RenamedText x y text text') {number : Nat} {code : Text}
    (hcode : (number, code) ∈ codeLines text) :
    ∃ code', (number, code') ∈ codeLines text' ∧ Renamed x y code code' ∧ '\n' ∉ code := by
  obtain ⟨f, hlines, hf⟩ := h
  obtain ⟨line, hline, rfl, hblank⟩ := mem_codeLines_iff.mp hcode
  have hmem := mem_of_getElem? hline
  refine ⟨Code.codePart (f line), mem_codeLines_iff.mpr ⟨f line, ?_, rfl, ?_⟩,
    hf line hmem, lineFeed_notMem_codePart hmem⟩
  · rw [hlines, getElem?_map, hline, Option.map_some]
  · rw [(hf line hmem).allBlank_eq (isWord_of_isIdentifier hnames.new), hblank]

include hxy

/-- **The renamed document declares the renamed names.** -/
theorem Declares.renamed (h : RenamedText x y text text') {n : Text} (hn : Declares text n) :
    Declares text' (rename x y n) := by
  cases hn with
  | @symbol line code s hline hs =>
    obtain ⟨code', hline', hcode, hbreak⟩ := h.exists_codeLine hnames hline
    have hcarried := carried_ofLine hnames hxy hcode hbreak (upper_mem_keysOf hnames h)
      text text' line line
    obtain ⟨s', hs', hname⟩ :=
      mem_map.mp (hcarried.forth s.name (mem_map_of_mem hs))
    rw [← hname]
    exact .symbol hline' hs'
  | @routine line code r hline hr =>
    obtain ⟨code', hline', hcode, hbreak⟩ := h.exists_codeLine hnames hline
    obtain ⟨r', hr', hroutine⟩ := exists_of_rel_some
      (ofHeader?_related hnames hxy hcode hbreak text text' line line) hr
    rw [← hroutine.name]
    exact .routine hline' hr'
  | @type line m hline hfound =>
    obtain ⟨f, hlines, hf⟩ := h
    obtain ⟨m', hfound', -, hname⟩ := exists_of_rel_some
      (typeDefinition_related hnames (hf line hline) (lineFeed_notMem_codePart hline)) hfound
    have hline' : f line ∈ text'.lines := by
      rw [hlines]
      exact mem_map_of_mem hline
    rw [← hname]
    exact .type hline' hfound'

/-- **It declares no name that equals the old one.** -/
theorem Declares.sameWord_eq_false (h : RenamedText x y text text') {n : Text}
    (hn : Declares text' n) : sameWord x n = false := by
  cases hn with
  | @symbol line code' s hline hs =>
    obtain ⟨code, hcode, hbreak⟩ := h.exists_codeLine_of_new hline
    have hcarried := carried_ofLine hnames hxy hcode hbreak (upper_mem_keysOf hnames h)
      text text' line line
    exact hcarried.back s.name (mem_map_of_mem hs)
  | @routine line code' r hline hr =>
    obtain ⟨code, hcode, hbreak⟩ := h.exists_codeLine_of_new hline
    obtain ⟨r₀, -, hroutine⟩ := exists_of_rel_some_right
      (ofHeader?_related hnames hxy hcode hbreak text text' line line) hr
    rw [hroutine.name]
    exact sameWord_rename hxy _
  | @type line' m hline' hfound =>
    obtain ⟨f, hlines, hf⟩ := h
    rw [hlines] at hline'
    obtain ⟨line, hline, rfl⟩ := mem_map.mp hline'
    obtain ⟨m₀, -, -, hname⟩ := exists_of_rel_some_right
      (typeDefinition_related hnames (hf line hline) (lineFeed_notMem_codePart hline)) hfound
    rw [hname]
    exact sameWord_rename hxy _

end Document

/-! ## Names that may be renamed -/

/-- A name of one's own is no spelling of a reserved word. -/
lemma sameWord_eq_false_of_isFree {key : Text} (hx : Rename.isFree x = true)
    (hkey : key ∈ Keyword.names ++ BuiltinType.names) : sameWord key x = false := by
  have hplain : ∀ key ∈ Keyword.names ++ BuiltinType.names,
      (∀ c ∈ key, isAscii c = true) ∧ upper key = key := by decide +kernel
  obtain ⟨hascii, hupper⟩ := hplain key hkey
  simp only [Rename.isFree, Bool.and_eq_true, Bool.not_eq_true'] at hx
  obtain ⟨⟨⟨hident, hkeyword⟩, htype⟩, -⟩ := hx
  by_contra hsame
  have hx : ∀ c ∈ x, isAscii c = true := fun c hc =>
    isAscii_of_isNameChar (isNameChar_of_isIdentifier hident c hc)
  have heq : key = upper x := by
    rw [← hupper]
    exact upper_eq_of_sameWord hascii hx (by simpa using hsame)
  rw [heq, mem_append, ← contains_iff_mem, ← contains_iff_mem] at hkey
  rcases hkey with hkey | hkey
  · exact absurd (hkey.symm.trans hkeyword) (by decide)
  · exact absurd (hkey.symm.trans htype) (by decide)

lemma isIdentifier_of_isFree (hx : Rename.isFree x = true) : isIdentifier x = true := by
  simp only [Rename.isFree, Bool.and_eq_true] at hx
  exact hx.1.1.1

lemma properNames (hx : Rename.isFree x = true) (hy : Rename.isFree y = true) :
    ProperNames x y where
  old := isIdentifier_of_isFree hx
  new := isIdentifier_of_isFree hy
  reserved _ hkey := ⟨sameWord_eq_false_of_isFree hx hkey, sameWord_eq_false_of_isFree hy hkey⟩

/-- There is always another name. -/
lemma exists_isFree (x : Text) : ∃ z, Rename.isFree z = true ∧ sameWord x z = false := by
  by_cases hx : sameWord x "q".toList = true
  · refine ⟨"qq".toList, by decide +kernel, Bool.eq_false_iff.mpr fun hx' => ?_⟩
    have hlen := length_eq_of_sameWord hx
    have hlen' := length_eq_of_sameWord hx'
    simp at hlen hlen'
    omega
  · exact ⟨"q".toList, by decide +kernel, by simpa using hx⟩

/-- A declared name stands in the document, as the renaming of any other would leave it there. -/
lemma Declares.exists_standsIn {n : Text} (hx : Rename.isFree x = true) (hn : Declares text n)
    (hsame : sameWord x n = true) : ∃ w, sameWord x w = true ∧ StandsIn w text := by
  by_contra hnone
  have hfree : ∀ w, StandsIn w text → sameWord x w = false := fun w hw =>
    Bool.eq_false_iff.mpr fun hsame => hnone ⟨w, hsame, hw⟩
  obtain ⟨z, hz, hxz⟩ := exists_isFree x
  have hself : RenamedText x z text text := by
    refine ⟨id, by simp, fun line hline => renamed_self z fun w hw => ?_⟩
    exact hfree w (hw.of_codePart.of_mem_lines hline)
  have hdiff := Declares.sameWord_eq_false (properNames hx hz) hxz hself hn
  simp [hsame] at hdiff

/-! ## The edits -/

namespace Rename

lemma isFree_of_check (h : check y = .ok ()) : isFree y = true := by
  rw [check] at h
  split_ifs at h with _ hfree
  simpa using hfree

lemma foldl_addEdit {uri : Uri} (new : Text) {found : List Location}
    (h : ∀ l ∈ found, l.uri = uri) (done : List TextEdit) :
    found.foldl (fun done l => addEdit l.uri ⟨l.range, new⟩ done) [(uri, done)] =
      [(uri, done ++ found.map fun l => ⟨l.range, new⟩)] := by
  induction found generalizing done with
  | nil => simp
  | cons l found ih =>
    have hl : l.uri = uri := h l mem_cons_self
    rw [foldl_cons, hl, addEdit, if_pos rfl, ih (forall_mem_cons.mp h).2]
    simp

/-- The edits in one document are edits line by line. -/
lemma edits_eq {uri : Uri} (hne : lineEdits text y (usesInLine x) text.lines.zipIdx ≠ []) :
    edits [⟨uri, text⟩] x y = [(uri, lineEdits text y (usesInLine x) text.lines.zipIdx)] := by
  have hedits := map_references_singleton ⟨uri, text⟩ x y
  have huri : ∀ l ∈ references [⟨uri, text⟩] x true, l.uri = uri := by
    intro l hl
    obtain ⟨f, hf, hl⟩ := exists_uri_of_mem_references hl
    rw [hl, mem_singleton.mp hf]
  rw [← hedits] at hne ⊢
  rw [edits]
  cases hfound : references [⟨uri, text⟩] x true with
  | nil => simp [hfound] at hne
  | cons l found =>
    rw [hfound] at huri
    have hl : l.uri = uri := huri l mem_cons_self
    rw [foldl_cons, addEdit, hl, foldl_addEdit y (forall_mem_cons.mp huri).2]
    rfl

end Rename

/-- The lines of the edited document are renamed. -/
lemma exists_renamedText (hx : isIdentifier x = true) (hy : isIdentifier y = true) (text : Text) :
    ∃ text', text.applyEdits (lineEdits text y (usesInLine x) text.lines.zipIdx) = some text' ∧
      RenamedText x y text text' := by
  obtain ⟨text', happly, hlines, -⟩ := exists_applyEdits_uses hx hy text
  exact ⟨text', happly, _, hlines, fun line _ =>
    (renamed_codePart hx (isWord_of_isIdentifier hy) line).2⟩

/-- **Renaming is consistent.**  Let a document declare `x`, a name of the user's own, and let `y`
be a name that may be given and that does not occur in the document.  Then the edits that put `y`
for `x` can be applied, and the document they give declares `y` and not `x`, and every other name in
ASCII characters that was declared before. -/
theorem Rename.edits_consistent (uri : Uri) (text x y : Text)
    (hdeclared : upper x ∈ (SymbolTable.collect text).declaredKeys)
    (hx : isFree x = true) (hy : check y = .ok ())
    (hnew : (Pattern.wholeWord y).isIn text = false) :
    ∃ es text', edits [⟨uri, text⟩] x y = [(uri, es)] ∧ text.applyEdits es = some text' ∧
      upper y ∈ (SymbolTable.collect text').declaredKeys ∧
      upper x ∉ (SymbolTable.collect text').declaredKeys ∧
      ∀ key ∈ (SymbolTable.collect text).declaredKeys, (∀ c ∈ key, isAscii c = true) →
        key ≠ upper x → key ∈ (SymbolTable.collect text').declaredKeys := by
  have hnames := properNames hx (isFree_of_check hy)
  obtain ⟨n, hn, hkey⟩ := mem_declaredKeys_iff.mp hdeclared
  have hxn : sameWord x n = true := sameWord_of_upper_eq hkey.symm
  have hxy : sameWord x y = false := by
    obtain ⟨w, hw, hstands⟩ := hn.exists_standsIn hx hxn
    refine Bool.eq_false_iff.mpr fun hxy => ?_
    have hyw : sameWord y w = true :=
      sameWord_iff.mpr ((sameWord_iff.mp hxy).symm.trans (sameWord_iff.mp hw))
    exact absurd (Pattern.isIn_of_standsIn hnames.new hyw hstands) (by simp [hnew])
  obtain ⟨text', happly, hrenamed⟩ := exists_renamedText hnames.old hnames.new text
  have hgone : upper x ∉ (SymbolTable.collect text').declaredKeys := by
    intro hmem
    obtain ⟨n', hn', hkey'⟩ := mem_declaredKeys_iff.mp hmem
    have hdiff := hn'.sameWord_eq_false hnames hxy hrenamed
    simp [sameWord_of_upper_eq hkey'.symm] at hdiff
  have hkept : ∀ {v}, Declares text v →
      upper (rename x y v) ∈ (SymbolTable.collect text').declaredKeys := fun hv =>
    mem_declaredKeys_iff.mpr ⟨_, hv.renamed hnames hxy hrenamed, rfl⟩
  -- Without a use the document would be as before, and `x` still declared.
  have hne : lineEdits text y (usesInLine x) text.lines.zipIdx ≠ [] := by
    intro hnil
    rw [hnil, applyEdits_nil, Option.some.injEq] at happly
    exact hgone (happly ▸ hdeclared)
  refine ⟨_, text', edits_eq hne, happly, ?_, hgone, ?_⟩
  · have hmem := hkept hn
    rwa [rename, if_pos hxn] at hmem
  · intro key hmem hascii hother
    obtain ⟨v, hv, rfl⟩ := mem_declaredKeys_iff.mp hmem
    have hplain : ∀ c ∈ v, isAscii c = true := fun c hc => by
      simpa using hascii (upperChar c) (mem_map_of_mem hc)
    have hxplain : ∀ c ∈ x, isAscii c = true := fun c hc =>
      isAscii_of_isNameChar (isNameChar_of_isIdentifier hnames.old c hc)
    have hxv : sameWord x v ≠ true := fun hsame =>
      hother (upper_eq_of_sameWord hxplain hplain hsame).symm
    have hmem' := hkept hv
    rwa [rename, if_neg hxv] at hmem'

/-- A structure, and a variable of its type, in a document that names the structure in a comment
too. -/
theorem Rename.edits_consistent_structure :
    let text : Text := "STRUC box INT a\nDECL Box crate\ncrate.a = 1 ; box".toList
    let x : Text := "Box".toList
    let y : Text := "chest".toList
    upper x ∈ (SymbolTable.collect text).declaredKeys ∧ isFree x = true ∧ check y = .ok () ∧
      (Pattern.wholeWord y).isIn text = false ∧
      ∃ es text', edits [⟨default, text⟩] x y = [(default, es)] ∧ text.applyEdits es = some text' ∧
        upper y ∈ (SymbolTable.collect text').declaredKeys ∧
        upper x ∉ (SymbolTable.collect text').declaredKeys ∧
        "CRATE".toList ∈ (SymbolTable.collect text').declaredKeys := by
  intro text x y
  have hdeclared : upper x ∈ (SymbolTable.collect text).declaredKeys := by decide +kernel
  have hcrate : "CRATE".toList ∈ (SymbolTable.collect text).declaredKeys := by decide +kernel
  have hx : isFree x = true := by decide +kernel
  have hy : check y = .ok () := by decide +kernel
  have hnew : (Pattern.wholeWord y).isIn text = false := by decide +kernel
  obtain ⟨es, text', hedits, happly, hin, hout, hkept⟩ :=
    edits_consistent default text x y hdeclared hx hy hnew
  exact ⟨hdeclared, hx, hy, hnew, es, text', hedits, happly, hin, hout,
    hkept _ hcrate (by decide) (by decide +kernel)⟩

end KrlWorkbench
