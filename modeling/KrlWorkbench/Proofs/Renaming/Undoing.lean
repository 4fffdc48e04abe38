import KrlWorkbench.Proofs.Renaming.WholeWords
import KrlWorkbench.Proofs.Symbol.NameRanges

/-!
# Renaming can be undone

Put `y` for `x` where `y` does not occur, and then `x` for `y`: what comes out is the text with each
use of `x` spelled `x`.

Along the links of a line this is a step back.  A link that replaced `x` by `y` is followed by one
that replaces `y` by `x` (`Link.undo`), and since no other word of the new text equals `y`, these
links are thorough: the uses of `y` are the places where `x` was replaced.  Both steps together come
to the links that respell `x` (`Link.respell`).  Documents are compared by their lines and the
breaks between them.
-/

namespace KrlWorkbench

open List Code Link Text

variable {new text : Text} {p : Capture} {here : Nat} {change : Uri × List TextEdit}
variable {x y line : Text} {inside owned : Bool} {changes : List (Uri × List TextEdit)}
  {files : List SourceFile}

/-! ## A step back along the links -/

/-- From the new text on: what was replaced becomes `x`. -/
def Link.undo (x : Text) : Link → Link
  | .sep c => .sep c
  | .word w w' => .word w' (if w' = w then w else x)

/-- From the old text on: what is replaced becomes `x`. -/
def Link.respell (x : Text) : Link → Link
  | .sep c => .sep c
  | .word w w' => .word w (if w' = w then w else x)

/-- The new text and itself. -/
def Link.settle : Link → Link
  | .sep c => .sep c
  | .word _ w' => .word w' w'

section Links

variable {x y : Text} {links : List Link}

lemma oldText_map_settle (links : List Link) : oldText (links.map settle) = newText links := by
  induction links with
  | nil => rfl
  | cons link links ih => cases link <;> simp [settle, ih]

lemma oldText_map_undo (x : Text) (links : List Link) :
    oldText (links.map (undo x)) = newText links := by
  induction links with
  | nil => rfl
  | cons link links ih => cases link <;> simp [undo, ih]

lemma oldText_map_respell (x : Text) (links : List Link) :
    oldText (links.map (respell x)) = oldText links := by
  induction links with
  | nil => rfl
  | cons link links ih => cases link <;> simp [respell, ih]

lemma newText_map_undo (x : Text) (links : List Link) :
    newText (links.map (undo x)) = newText (links.map (respell x)) := by
  induction links with
  | nil => rfl
  | cons link links ih => cases link <;> simp [undo, respell, ih]

lemma head?_map_isWord {f : Link → Link} (hf : ∀ link, (f link).isWord = link.isWord)
    (links : List Link) : (links.map f).head?.any isWord = links.head?.any isWord := by
  cases links <;> simp [hf]

lemma Aligned.undo_respell (hy : isIdentifier y = true) (h : Aligned x y links) :
    Aligned y x (links.map (undo x)) ∧ Aligned x x (links.map (respell x)) := by
  induction h with
  | nil => exact ⟨.nil, .nil⟩
  | sep hc _ ih => exact ⟨.sep hc ih.1, .sep hc ih.2⟩
  | @word w w' links hw hnew hnext _ ih =>
    have hw' := isWord_new (isWord_of_isIdentifier hy) hw hnew
    refine ⟨.word hw' ?_ ?_ ih.1, .word hw ?_ ?_ ih.2⟩
    case refine_2 | refine_4 => rw [head?_map_isWord (fun link => by cases link <;> rfl), hnext]
    all_goals
      split
      case isTrue hkept => exact .inl (by simp [hkept])
      case isFalse hne =>
        obtain ⟨hsame, rfl⟩ := hnew.resolve_left hne
        exact .inr ⟨by simp [hsame, sameWord_refl], rfl⟩

lemma Aligned.settle (hy : isIdentifier y = true) (h : Aligned x y links) :
    Aligned x x (links.map settle) := by
  induction h with
  | nil => exact .nil
  | sep hc _ ih => exact .sep hc ih
  | word hw hnew hnext _ ih =>
    refine .word (isWord_new (isWord_of_isIdentifier hy) hw hnew) (.inl rfl) ?_ ih
    rw [head?_map_isWord (fun link => by cases link <;> rfl), hnext]

/-- Where no word equals `y`, it shows which ones were replaced. -/
lemma replaced_cases {replaces : Bool} {w w' : Text} (hother : sameWord y w = false)
    (hw' : w' = if replaces then y else w) :
    replaces = true ∧ w' = y ∧ w' ≠ w ∨ replaces = false ∧ w' = w := by
  cases replaces with
  | true =>
    refine .inl ⟨rfl, hw', ?_⟩
    rintro rfl
    rw [show w' = y from hw', sameWord_refl] at hother
    simp at hother
  | false => exact .inr ⟨rfl, hw'⟩

/-- The words of the new text that equal `y` are those that were replaced. -/
lemma Thorough.undo_respell (h : Thorough x y inside owned links)
    (hfresh : ∀ w w', .word w w' ∈ links → sameWord y w = false) :
    Thorough y x inside owned (links.map (undo x)) ∧
      Thorough x x inside owned (links.map (respell x)) := by
  induction links generalizing inside owned with
  | nil => exact ⟨trivial, trivial⟩
  | cons link links ih =>
    have hrest := fun w w' hmem => hfresh w w' (mem_cons_of_mem _ hmem)
    cases link with
    | sep c => exact ih h hrest
    | word w w' =>
      obtain ⟨hw', hlinks⟩ := h
      have hother := hfresh w w' mem_cons_self
      obtain ⟨hundo, hrespell⟩ := ih hlinks hrest
      refine ⟨⟨?_, hundo⟩, ⟨?_, hrespell⟩⟩ <;>
        rcases replaced_cases hother hw' with ⟨hreplaces, rfl, hne⟩ | ⟨hreplaces, rfl⟩
      · obtain ⟨hfree, -⟩ := Bool.and_eq_true_iff.mp hreplaces
        rw [if_neg hne, hfree, sameWord_refl]
        rfl
      · rw [if_pos rfl, hother, Bool.and_false]
        rfl
      · rw [if_neg hne, hreplaces]
        rfl
      · rw [if_pos rfl, hreplaces]
        rfl

/-- In the new text no use of `x` is left. -/
lemma usesFrom_settle (h : Thorough x y inside owned links)
    (hfresh : ∀ w w', .word w w' ∈ links → sameWord y w = false) (here : Nat) :
    usesFrom x inside owned here (links.map settle) = [] := by
  induction links generalizing inside owned here with
  | nil => rfl
  | cons link links ih =>
    have hrest := fun w w' hmem => hfresh w w' (mem_cons_of_mem _ hmem)
    cases link with
    | sep c => exact ih h hrest _
    | word w w' =>
      obtain ⟨hw', hlinks⟩ := h
      have hother := hfresh w w' mem_cons_self
      rw [map_cons, settle, usesFrom, ih hlinks hrest, append_nil, if_neg]
      rw [Bool.not_eq_true]
      rcases replaced_cases hother hw' with ⟨hreplaces, rfl, -⟩ | ⟨hreplaces, rfl⟩
      · -- The word replaced equals `x`, so `y` does not, or it would equal that word.
        have hxw := sameWord_iff.mp (Bool.and_eq_true_iff.mp hreplaces).2
        have hxy : sameWord x w' = false := by
          rw [← Bool.not_eq_true, sameWord_iff]
          intro hxy
          rw [sameWord_iff.mpr (hxy.symm.trans hxw)] at hother
          simp at hother
        rw [hxy, Bool.and_false]
      · exact hreplaces

end Links

/-! ## A line and back -/

lemma exists_links_line (x : Text)
    (hfresh : ∀ w, StandsIn w (codePart line) → sameWord y w = false) :
    ∃ links comment, Aligned x y links ∧ Thorough x y false false links ∧
      (∀ w w', .word w w' ∈ links → sameWord y w = false) ∧
      line = oldText links ++ comment ∧ codePart (oldText links ++ comment) = oldText links := by
  obtain ⟨links, haligned, hcode, hthorough⟩ := exists_links x y false false (codePart line)
  obtain ⟨comment, hline⟩ := codePart_isPrefix line
  rw [← hcode] at hline hfresh
  exact ⟨links, comment, haligned, hthorough,
    fun w _ hmem => hfresh w (.of_mem_links haligned hmem),
    hline.symm, by rw [hline, hcode]⟩

/-- **A line.**  Putting `y` for the uses of `x` and then `x` for the uses of `y` spells each use
of `x` as `x`. -/
lemma substitute_undo (hx : isIdentifier x = true) (hy : isIdentifier y = true)
    (hfresh : ∀ w, StandsIn w (codePart line) → sameWord y w = false) :
    substitute (fun _ => x) 0 (substitute (fun _ => y) 0 line (usesInLine x line))
        (usesInLine y (substitute (fun _ => y) 0 line (usesInLine x line))) =
      substitute (fun _ => x) 0 line (usesInLine x line) := by
  obtain ⟨links, comment, haligned, hthorough, hwords, rfl, hcode⟩ := exists_links_line x hfresh
  obtain ⟨haligned₁, haligned₂⟩ := haligned.undo_respell hy
  obtain ⟨hthorough₁, hthorough₂⟩ := hthorough.undo_respell hwords
  have hnew := codeFrom_newText (isWord_of_isIdentifier hy) haligned hcode
  -- Each of the three replacements gives the new side of its links.
  have hfirst := substitute_usesInLine hx haligned hthorough hcode
  have hback : substitute (fun _ => x) 0 (newText links ++ comment)
      (usesInLine y (newText links ++ comment)) = newText (links.map (undo x)) ++ comment := by
    rw [← oldText_map_undo x] at hnew ⊢
    exact substitute_usesInLine hy haligned₁ hthorough₁ hnew
  have hrespelled : substitute (fun _ => x) 0 (oldText links ++ comment)
      (usesInLine x (oldText links ++ comment)) =
        newText (links.map (respell x)) ++ comment := by
    rw [← oldText_map_respell x] at hcode ⊢
    exact substitute_usesInLine hx haligned₂ hthorough₂ hcode
  rw [hfirst, hback, hrespelled, newText_map_undo]

/-- After the first replacement no use of `x` is left. -/
lemma usesInLine_substitute (hx : isIdentifier x = true) (hy : isIdentifier y = true)
    (hfresh : ∀ w, StandsIn w (codePart line) → sameWord y w = false) :
    usesInLine x (substitute (fun _ => y) 0 line (usesInLine x line)) = [] := by
  obtain ⟨links, comment, haligned, hthorough, hwords, rfl, hcode⟩ := exists_links_line x hfresh
  have hnew := codeFrom_newText (isWord_of_isIdentifier hy) haligned hcode
  rw [substitute_usesInLine hx haligned hthorough hcode,
    usesInLine_eq hx (haligned.settle hy) ((oldText_map_settle links).trans hnew.symm)]
  exact usesFrom_settle hthorough hwords 0

/-- A replacement by something as long leaves the text as it is only if it replaces nothing else. -/
lemma substitute_eq_self_iff {pieces : List Capture}
    (h : Placed here text pieces) (hlength : ∀ p ∈ pieces, p.text.length = x.length) :
    substitute (fun _ => x) here text pieces = text ↔ ∀ p ∈ pieces, p.text = x := by
  induction h with
  | nil => simp
  | @cons here gap rest piece pieces hstart _ ih =>
    have hrest := ih (forall_mem_cons.mp hlength).2
    rw [substitute_cons _ hstart, append_cancel_left_eq, forall_mem_cons, ← hrest]
    constructor
    · intro heq
      obtain ⟨hpiece, htail⟩ := List.append_inj heq (hlength piece mem_cons_self).symm
      exact ⟨hpiece.symm, htail⟩
    · rintro ⟨hpiece, htail⟩
      rw [hpiece, htail]

lemma sameWord_of_mem_usesFrom {links : List Link}
    (h : p ∈ usesFrom x inside owned here links) : sameWord x p.text = true := by
  induction links generalizing inside owned here with
  | nil => simp [usesFrom] at h
  | cons link links ih =>
    cases link with
    | sep c => exact ih h
    | word w w' =>
      rcases mem_append.mp h with h | h
      · split at h
        case isTrue huse =>
          rw [mem_singleton.mp h]
          exact (Bool.and_eq_true_iff.mp huse).2
        case isFalse => simp at h
      · exact ih h

lemma sameWord_of_mem_usesInLine (hx : isIdentifier x = true)
    (h : p ∈ usesInLine x line) : sameWord x p.text = true := by
  obtain ⟨links, haligned, hcode, -⟩ := exists_links x x false false (codePart line)
  rw [usesInLine_eq hx haligned hcode] at h
  exact sameWord_of_mem_usesFrom h

/-! ## A document and back -/

lemma Range.Holds.eq {r : Range} {a b : Text} (ha : r.Holds text a) (hb : r.Holds text b) :
    a = b := by
  obtain ⟨start, stop, hstart, hstop, -, -, rfl⟩ := ha
  obtain ⟨start', stop', hstart', hstop', -, -, rfl⟩ := hb
  rw [hstart, Option.some.injEq] at hstart'
  rw [hstop, Option.some.injEq] at hstop'
  rw [hstart', hstop']

section Document

variable {x y : Text} (hx : isIdentifier x = true)
include hx

lemma holds_of_mem_usesInLine {line : Text} {number : Nat}
    (hline : text.lines[number]? = some line) (hp : p ∈ usesInLine x line) :
    (text.span number p.start (byteLength p.text)).Holds text p.text := by
  obtain ⟨lead, rest, hsplit, hlead⟩ := (placed_usesInLine hx line).exists_append_of_mem hp
  rw [hsplit] at hline
  rw [hlead, Nat.zero_add]
  exact holds_span hline

/-- An edit of a use resolves to the word that it replaces. -/
lemma exists_holds_of_mem_lineEdits {e : TextEdit}
    (h : e ∈ lineEdits text new (usesInLine x) text.lines.zipIdx) :
    e.newText = new ∧ ∃ w, sameWord x w = true ∧ e.range.Holds text w := by
  obtain ⟨⟨line, number⟩, hline, he⟩ := mem_flatMap.mp h
  obtain ⟨p, hp, rfl⟩ := mem_map.mp he
  exact ⟨rfl, p.text, sameWord_of_mem_usesInLine hx hp,
    holds_of_mem_usesInLine hx (mk_mem_zipIdx_iff_getElem?.mp hline) hp⟩

/-- The text with the uses of a name respelled is the text itself exactly if each is spelled so. -/
lemma eq_self_iff_of_lines {text' : Text}
    (hlines : text'.lines = text.lines.map fun l => substitute (fun _ => x) 0 l (usesInLine x l))
    (hbreaks : text'.breaks = text.breaks) :
    text' = text ↔ ∀ line ∈ text.lines, ∀ p ∈ usesInLine x line, p.text = x := by
  have hline : ∀ line, substitute (fun _ => x) 0 line (usesInLine x line) = line ↔
      ∀ p ∈ usesInLine x line, p.text = x := fun line =>
    substitute_eq_self_iff (placed_usesInLine hx line) fun p hp =>
      length_eq_of_sameWord (sameWord_of_mem_usesInLine hx hp)
  constructor
  · rintro rfl
    have hmap := map_inj_left.mp (hlines.symm.trans (map_id _).symm)
    exact fun line hmem => (hline line).mp (hmap line hmem)
  · intro hspelled
    refine eq_of_lines_eq_of_breaks_eq ?_ hbreaks
    rw [hlines]
    refine (map_congr_left fun line hmem => ?_).trans (map_id _)
    exact (hline line).mpr (hspelled line hmem)

/-- In terms of the edits: each use is spelled `x` if each edit stands where `x` stands. -/
lemma forall_holds_lineEdits_iff :
    (∀ e ∈ lineEdits text new (usesInLine x) text.lines.zipIdx, e.range.Holds text x) ↔
      ∀ line ∈ text.lines, ∀ p ∈ usesInLine x line, p.text = x := by
  constructor
  · intro h line hline p hp
    obtain ⟨number, hnumber⟩ := mem_iff_getElem?.mp hline
    have hholds := holds_of_mem_usesInLine hx hnumber hp
    refine hholds.eq (h ⟨_, new⟩ (mem_flatMap.mpr ⟨⟨line, number⟩, ?_, ?_⟩))
    · exact mk_mem_zipIdx_iff_getElem?.mpr hnumber
    · exact mem_map.mpr ⟨p, hp, rfl⟩
  · intro h e he
    obtain ⟨⟨line, number⟩, hline, he⟩ := mem_flatMap.mp he
    obtain ⟨p, hp, rfl⟩ := mem_map.mp he
    have hnumber := mk_mem_zipIdx_iff_getElem?.mp hline
    rw [← h line (mem_of_getElem? hnumber) p hp]
    exact holds_of_mem_usesInLine hx hnumber hp

/-- **A document.**  Putting `y` for the uses of `x` and then `x` for the uses of `y` respells the
uses of `x`. -/
lemma exists_undone (hy : isIdentifier y = true)
    (hfresh : (Pattern.wholeWord y).isIn text = false) :
    ∃ text' text'',
      text.applyEdits (lineEdits text y (usesInLine x) text.lines.zipIdx) = some text' ∧
      (∀ line ∈ text'.lines, usesInLine x line = []) ∧
      text'.applyEdits (lineEdits text' x (usesInLine y) text'.lines.zipIdx) = some text'' ∧
      text.applyEdits (lineEdits text x (usesInLine x) text.lines.zipIdx) = some text'' ∧
      (text'' = text ↔ ∀ line ∈ text.lines, ∀ p ∈ usesInLine x line, p.text = x) := by
  obtain ⟨text', happly', hlines', hbreaks'⟩ := exists_applyEdits_uses hx hy text
  obtain ⟨back, hback, hlines, hbreaks⟩ := exists_applyEdits_uses hy hx text'
  obtain ⟨respelled, hrespelled, hlines'', hbreaks''⟩ := exists_applyEdits_uses hx hx text
  have hstands : ∀ line ∈ text.lines, ∀ w, StandsIn w (codePart line) →
      sameWord y w = false := by
    intro line hline w hw
    by_contra hsame
    have hin := Pattern.isIn_of_standsIn hy (by simpa using hsame)
      (hw.of_codePart.of_mem_lines hline)
    rw [hfresh] at hin
    simp at hin
  have hgone : ∀ line ∈ text'.lines, usesInLine x line = [] := by
    rw [hlines', forall_mem_map]
    exact fun line hline => usesInLine_substitute hx hy (hstands line hline)
  have heq : back = respelled := by
    refine eq_of_lines_eq_of_breaks_eq ?_ (by rw [hbreaks, hbreaks', hbreaks''])
    rw [hlines, hlines', hlines'', map_map]
    exact map_congr_left fun line hline => substitute_undo hx hy (hstands line hline)
  subst heq
  exact ⟨text', back, happly', hgone, hback, hrespelled, eq_self_iff_of_lines hx hlines'' hbreaks''⟩

end Document

/-! ## The edits of a file -/

namespace Rename

/-- The edits of a file. -/
def editsOf (uri : Uri) : List (Uri × List TextEdit) → List TextEdit
  | [] => []
  | (u, edits) :: rest => if u = uri then edits else editsOf uri rest

lemma editsOf_addEdit (uri u : Uri) (e : TextEdit) (changes : List (Uri × List TextEdit)) :
    editsOf u (addEdit uri e changes) = editsOf u changes ++ if uri = u then [e] else [] := by
  induction changes with
  | nil => simp [addEdit, editsOf]
  | cons change changes ih =>
    obtain ⟨v, edits⟩ := change
    rw [addEdit]
    by_cases hv : v = uri
    · rw [if_pos hv, editsOf, editsOf, hv]
      split <;> simp
    · rw [if_neg hv, editsOf, editsOf, ih]
      by_cases hvu : v = u
      · rw [if_pos hvu, if_pos hvu, if_neg (hvu ▸ Ne.symm hv), append_nil]
      · rw [if_neg hvu, if_neg hvu]

lemma editsOf_foldl_addEdit (u : Uri) (new : Text) (found : List Location)
    (changes : List (Uri × List TextEdit)) :
    editsOf u (found.foldl (fun done l => addEdit l.uri ⟨l.range, new⟩ done) changes) =
      editsOf u changes ++
        ((found.filter fun l => l.uri = u).map fun l => ⟨l.range, new⟩) := by
  induction found generalizing changes with
  | nil => simp
  | cons l found ih =>
    rw [foldl_cons, ih, editsOf_addEdit, append_assoc]
    by_cases hl : l.uri = u
    · simp [hl]
    · simp [hl]

lemma editsOf_edits (h : (files.map (·.uri)).Nodup) {f : SourceFile} (hf : f ∈ files) (x y : Text) :
    editsOf f.uri (edits files x y) = lineEdits f.text y (usesInLine x) f.text.lines.zipIdx := by
  rw [edits, editsOf_foldl_addEdit, ← map_references_singleton, editsOf, nil_append]
  induction files with
  | nil => simp at hf
  | cons file files ih =>
    obtain ⟨hfile, h⟩ := nodup_cons.mp h
    rw [references_cons, filter_append]
    rcases mem_cons.mp hf with rfl | hf
    · -- No other file has this address.
      rw [filter_eq_self.mpr, filter_eq_nil_iff.mpr, append_nil]
      · intro l hl
        obtain ⟨f', hf', hl⟩ := exists_uri_of_mem_references hl
        simp only [hl, decide_eq_true_eq]
        intro heq
        exact hfile (mem_map.mpr ⟨f', hf', heq⟩)
      · intro l hl
        obtain ⟨f', hf', hl⟩ := exists_uri_of_mem_references hl
        simp [hl, mem_singleton.mp hf']
    · rw [filter_eq_nil_iff.mpr, nil_append, ih h hf]
      intro l hl
      obtain ⟨f', hf', hl⟩ := exists_uri_of_mem_references hl
      simp only [hl, mem_singleton.mp hf', decide_eq_true_eq]
      intro heq
      exact hfile (mem_map.mpr ⟨f, hf, heq.symm⟩)

lemma nodup_keys_addEdit (uri : Uri) (e : TextEdit) (h : (changes.map Prod.fst).Nodup) :
    ((addEdit uri e changes).map Prod.fst).Nodup ∧
      ∀ u ∈ (addEdit uri e changes).map Prod.fst, u = uri ∨ u ∈ changes.map Prod.fst := by
  induction changes with
  | nil => simp [addEdit]
  | cons change changes ih =>
    obtain ⟨v, edits⟩ := change
    obtain ⟨hv, h⟩ := nodup_cons.mp h
    obtain ⟨hnodup, hkeys⟩ := ih h
    rw [addEdit]
    split
    case isTrue => exact ⟨nodup_cons.mpr ⟨hv, h⟩, fun u hu => .inr hu⟩
    case isFalse hne =>
      refine ⟨nodup_cons.mpr ⟨fun hmem => ?_, hnodup⟩, fun u hu => ?_⟩
      · rcases hkeys v hmem with heq | hmem
        · exact hne heq
        · exact hv hmem
      · rcases mem_cons.mp hu with rfl | hu
        · exact .inr mem_cons_self
        · exact (hkeys u hu).imp_right (mem_cons_of_mem _)

lemma eq_editsOf_of_mem (h : (changes.map Prod.fst).Nodup)
    (hmem : change ∈ changes) : change = (change.1, editsOf change.1 changes) := by
  induction changes with
  | nil => simp at hmem
  | cons first changes ih =>
    obtain ⟨hfirst, h⟩ := nodup_cons.mp h
    rw [editsOf]
    rcases mem_cons.mp hmem with rfl | hmem
    · rw [if_pos rfl]
    · rw [if_neg, ← ih h hmem]
      intro heq
      exact hfirst (heq ▸ mem_map_of_mem hmem)

/-- Only files are edited, each once. -/
lemma exists_file_of_mem_edits (h : change ∈ edits files x y) :
    ∃ f ∈ files, change = (f.uri, editsOf f.uri (edits files x y)) := by
  obtain ⟨hnodup, hkeys⟩ : ((edits files x y).map Prod.fst).Nodup ∧
      ∀ u ∈ (edits files x y).map Prod.fst, ∃ f ∈ files, u = f.uri := by
    rw [edits]
    refine foldlRecOn (motive := fun changes : List (Uri × _) => (changes.map Prod.fst).Nodup ∧
      ∀ u ∈ changes.map Prod.fst, ∃ f ∈ files, u = f.uri) _ _ ⟨nodup_nil, forall_mem_nil _⟩ ?_
    rintro changes ⟨hnodup, huris⟩ l hl
    obtain ⟨hnodup', hkeys⟩ := nodup_keys_addEdit l.uri ⟨l.range, y⟩ hnodup
    refine ⟨hnodup', fun u hu => ?_⟩
    rcases hkeys u hu with rfl | hu
    · exact exists_uri_of_mem_references hl
    · exact huris u hu
  obtain ⟨f, hf, huri⟩ := hkeys _ (mem_map_of_mem h)
  exact ⟨f, hf, huri ▸ eq_editsOf_of_mem hnodup h⟩

/-! ## The workspace and back -/

/-- The files with their edits applied. -/
def applyAll (changes : List (Uri × List TextEdit)) (files : List SourceFile) :
    Option (List SourceFile) :=
  files.mapM fun f => (f.text.applyEdits (editsOf f.uri changes)).map fun text => ⟨f.uri, text⟩

lemma applyAll_map {old new : SourceFile → Text}
    (h : ∀ f ∈ files, (old f).applyEdits (editsOf f.uri changes) = some (new f)) :
    applyAll changes (files.map fun f => ⟨f.uri, old f⟩) =
      some (files.map fun f => ⟨f.uri, new f⟩) := by
  induction files with
  | nil => rfl
  | cons f files ih =>
    have hrest := ih (forall_mem_cons.mp h).2
    rw [applyAll] at hrest ⊢
    simp [h f mem_cons_self, hrest]

/-- The edits of a file replace words that equal `x` by `y`, each in one line, one behind the
other. -/
structure Replaces (x y text : Text) (edits : List TextEdit) : Prop where
  words : ∀ e ∈ edits, e.newText = y ∧ ∃ w, sameWord x w = true ∧ e.range.Holds text w
  apart : edits.Pairwise fun e e' => ∃ stop start, text.offset e.range.stop = some stop ∧
    text.offset e'.range.start = some start ∧ stop ≤ start

lemma replaces_lineEdits (hx : isIdentifier x = true) (hy : isIdentifier y = true) (text : Text) :
    Replaces x y text (lineEdits text y (usesInLine x) text.lines.zipIdx) where
  words _ := exists_holds_of_mem_lineEdits hx
  apart := by
    have hword := isWord_of_isIdentifier hy
    exact pairwise_lineEdits (noBreak_of_isWord hword) hword.ne_nil
      fun line _ => placed_usesInLine hx line

end Rename

/-- **Renaming can be undone.** Let some files have distinct addresses and let `y` occur in none of
them.  The edits that put `y` for `x` are edits of these files; in each file they replace words that
equal `x`, each in one line, apart from each other and in order.  They can be applied and leave no
use of `x`, and the edits that put `x` for `y` can be applied after them.  What comes out is each
text with every word that was replaced respelled as `x`, which is the text itself exactly if all of
them were spelled `x`. -/
theorem Rename.edits_undone (files : List SourceFile) (x y : Text)
    (huris : (files.map (·.uri)).Nodup) (hx : isIdentifier x = true) (hy : isIdentifier y = true)
    (hfresh : ∀ f ∈ files, (Pattern.wholeWord y).isIn f.text = false) :
    (∀ change ∈ edits files x y, ∃ f ∈ files,
      change = (f.uri, editsOf f.uri (edits files x y))) ∧
    (∀ f ∈ files, Replaces x y f.text (editsOf f.uri (edits files x y))) ∧
    ∃ files' files'', applyAll (edits files x y) files = some files' ∧
      references files' x true = [] ∧
      applyAll (edits files' y x) files' = some files'' ∧
      List.Forall₂ (fun f f'' => f''.uri = f.uri ∧
        f.text.applyEdits ((editsOf f.uri (edits files x y)).map fun e => ⟨e.range, x⟩) =
          some f''.text ∧
        (f''.text = f.text ↔
          ∀ e ∈ editsOf f.uri (edits files x y), e.range.Holds f.text x)) files files'' := by
  have hedits : ∀ f ∈ files, editsOf f.uri (edits files x y) =
      lineEdits f.text y (usesInLine x) f.text.lines.zipIdx := fun f hf =>
    editsOf_edits huris hf x y
  refine ⟨fun change => exists_file_of_mem_edits, ?_, ?_⟩
  · intro f hf
    rw [hedits f hf]
    exact replaces_lineEdits hx hy f.text
  · have hundone := fun f hf => exists_undone hx hy (hfresh f hf)
    choose! new back hnew hgone hback hrespelled hrestored using hundone
    -- The renamed files keep their addresses, so their edits can be told apart again.
    have huris' : ((files.map fun f => SourceFile.mk f.uri (new f)).map (·.uri)).Nodup := by
      simpa [Function.comp_def] using huris
    refine ⟨files.map fun f => ⟨f.uri, new f⟩, files.map fun f => ⟨f.uri, back f⟩, ?_, ?_, ?_, ?_⟩
    · have happly : applyAll (edits files x y) (files.map fun f => ⟨f.uri, f.text⟩) =
          some (files.map fun f => ⟨f.uri, new f⟩) :=
        applyAll_map fun f hf => by rw [hedits f hf, hnew f hf]
      simpa using happly
    · refine references_eq_nil ?_
      rw [forall_mem_map]
      exact hgone
    · refine applyAll_map fun f hf => ?_
      have hf' := editsOf_edits huris' (mem_map_of_mem hf) y x
      rw [hf']
      exact hback f hf
    · rw [forall₂_map_right_iff, forall₂_same]
      intro f hf
      have hmap : (lineEdits f.text y (usesInLine x) f.text.lines.zipIdx).map
          (fun e => TextEdit.mk e.range x) =
          lineEdits f.text x (usesInLine x) f.text.lines.zipIdx := by
        simp [lineEdits, map_flatMap, Function.comp_def]
      rw [hedits f hf, hmap, forall_holds_lineEdits_iff hx]
      exact ⟨rfl, hrespelled f hf, hrestored f hf⟩

/-- Two files that spell a name in two ways, the second in a comment as well. -/
def gripperFiles : List SourceFile :=
  [⟨{ (default : Uri) with path := "/pick.src".toList }, "gripper = 1\r\nHALT".toList⟩,
    ⟨{ (default : Uri) with path := "/pick.dat".toList }, "DECL INT Gripper ; Gripper".toList⟩]

/-- The first file is restored, in the second the declaration is respelled. -/
theorem Rename.edits_undone_gripper :
    ((gripperFiles.map (·.uri)).Nodup ∧ isIdentifier "gripper".toList = true ∧
      isIdentifier "tool".toList = true ∧
      ∀ f ∈ gripperFiles, (Pattern.wholeWord "tool".toList).isIn f.text = false) ∧
    ∃ files' files'',
      applyAll (edits gripperFiles "gripper".toList "tool".toList) gripperFiles = some files' ∧
      applyAll (edits files' "tool".toList "gripper".toList) files' = some files'' ∧
      files''.map (·.text) =
        ["gripper = 1\r\nHALT".toList, "DECL INT gripper ; Gripper".toList] := by
  have huris : (gripperFiles.map (·.uri)).Nodup := by decide
  have hx : isIdentifier "gripper".toList = true := by decide
  have hy : isIdentifier "tool".toList = true := by decide
  have hfresh : ∀ f ∈ gripperFiles, (Pattern.wholeWord "tool".toList).isIn f.text = false := by
    decide +kernel
  have hrespelled : gripperFiles.map (fun f => f.text.applyEdits
      ((editsOf f.uri (edits gripperFiles "gripper".toList "tool".toList)).map fun e =>
        ⟨e.range, "gripper".toList⟩)) =
      ["gripper = 1\r\nHALT".toList, "DECL INT gripper ; Gripper".toList].map some := by
    decide +kernel
  obtain ⟨-, -, files', files'', happly, -, hback, hfiles⟩ :=
    edits_undone gripperFiles "gripper".toList "tool".toList huris hx hy hfresh
  refine ⟨⟨huris, hx, hy, hfresh⟩, files', files'', happly, hback, ?_⟩
  have htexts : gripperFiles.map (fun f => f.text.applyEdits
      ((editsOf f.uri (edits gripperFiles "gripper".toList "tool".toList)).map fun e =>
        ⟨e.range, "gripper".toList⟩)) = (files''.map (·.text)).map some := by
    rw [map_map, ← forall₂_eq_eq_eq, forall₂_map_left_iff, forall₂_map_right_iff]
    exact hfiles.imp fun f f'' h => h.2.1
  rw [hrespelled] at htexts
  exact ((List.map_inj_right fun _ _ => Option.some.inj).mp htexts).symm

end KrlWorkbench
