import KrlWorkbench.Proofs.Pattern.Fits
import KrlWorkbench.Proofs.Renaming.Links
import KrlWorkbench.Proofs.Text.EditApplication
import KrlWorkbench.Service.Occurrence

/-!
# The uses of a name

The uses of a name in a line are found by a search for whole words.  Read along the links of the
line, the search stops at each word that equals the name (`map_whole_occurrencesFrom`), and the
places that count as uses are the words that renaming replaces (`usesInLine_eq`).  So putting the
new name in the place of each use gives the new side of the links (`substitute_usesFrom`), and the
code of the line is renamed (`renamed_codePart`).
-/

namespace KrlWorkbench

open List Code Text

variable {comment r w : Text} {inside : Bool} {files : List SourceFile} {m : Match}
variable {x y : Text} {links : List Link}

/-! ## Whole words -/

namespace Pattern

variable {x a b : Text}

lemma isWordBoundary_reverse (a v : Text) :
    isWordBoundary a.reverse.head? v.head? = (endsWord a != startsWord v) := by
  rw [isWordBoundary, head?_reverse]
  rfl

lemma isWordBoundary_skip {w : Text} (hw : IsWord w) (text u rest v : Text) :
    isWordBoundary ((between [] text).skip (u ++ w) rest).before.head? v.head? =
      !startsWord v := by
  rw [Cursor.skip, between, reverse_nil, append_nil, isWordBoundary_reverse,
    endsWord_append hw.ne_nil, hw.endsWord, Bool.true_bne]

lemma matchAt_wholeWord_iff (hx : isIdentifier x = true) {there : Cursor} :
    (wholeWord x).matchAt (between a b) = some (m, there) ↔
      ∃ w r, b = w ++ r ∧ sameWord x w = true ∧ endsWord a = false ∧ startsWord r = false ∧
        m = ⟨⟨byteLength a, w⟩, []⟩ ∧ there = between (a ++ w) r := by
  constructor
  · intro h
    obtain ⟨w, r, found, hb, hfits, hnext⟩ := exists_fits_of_run h
    obtain rfl : b = w ++ r := hb
    obtain ⟨rfl, rfl⟩ := hnext
    obtain ⟨u, tail, _, _, rfl, rfl, hfits, hstop⟩ := hfits.exists_of_append
    obtain ⟨lead, w, _, _, rfl, rfl, hstart, hword⟩ := hfits.exists_of_append
    obtain ⟨hsame, rfl⟩ := hword.sameWord_of_word
    have hw := isWord_of_sameName hx hsame
    cases hstart with
    | wordBoundary hstart =>
      cases hstop with
      | wordBoundary hstop =>
        have hleft : isWordBoundary a.reverse.head? (w ++ ([] ++ r)).head? = true := hstart
        have hright : isWordBoundary (([] ++ w).reverse ++ a.reverse).head? r.head? = true :=
          hstop
        rw [isWordBoundary_reverse, hw.startsWord_append] at hleft
        rw [← reverse_append, isWordBoundary_reverse, nil_append,
          endsWord_append hw.ne_nil, hw.endsWord] at hright
        refine ⟨w, r, by simp, hsame, by simpa using hleft, by simpa using hright, ?_, ?_⟩
        · simp [Cursor.upTo, between]
        · simp [Cursor.skip, between]
  · rintro ⟨w, r, rfl, hsame, ha, hr, rfl, rfl⟩
    have hw := isWord_of_sameName hx hsame
    have hleft : isWordBoundary (between a (w ++ r)).before.head? (w ++ r).head? = true := by
      rw [between, isWordBoundary_reverse, hw.startsWord_append, ha]
      rfl
    have hright : isWordBoundary ((between a (w ++ r)).skip w r).before.head? r.head? = true := by
      rw [between, Cursor.skip, ← reverse_append, isWordBoundary_reverse,
        endsWord_append hw.ne_nil, hw.endsWord, hr]
      rfl
    -- The run is followed part by part: a boundary, the word, a boundary.
    change (Pattern.seq (.seq .wordBoundary (word x)) .wordBoundary).run (between a (w ++ r)) [] _
      = _
    rw [run, run, run]
    simp only [hleft, if_true, between_rest]
    rw [run_word rfl hsame, run, Cursor.skip_rest, if_pos hright]
    simp [Cursor.upTo, Cursor.skip, between]

lemma matchAt_wholeWord_eq_none (hx : isIdentifier x = true)
    (h : ∀ w r, b = w ++ r → IsWord w → startsWord r = false → sameWord x w = false) :
    (wholeWord x).matchAt (between a b) = none := by
  by_contra hsome
  obtain ⟨⟨m, there⟩, hmatch⟩ := Option.ne_none_iff_exists'.mp hsome
  obtain ⟨w, r, hb, hsame, -, hr, -⟩ := (matchAt_wholeWord_iff hx).mp hmatch
  rw [h w r hb (isWord_of_sameName hx hsame) hr] at hsame
  simp at hsame

/-! ### One step of the search -/

variable {p : Pattern} {last : Option Nat}

lemma occurrencesFrom_end (h : p.matchAt (between a []) = none) :
    p.occurrencesFrom (between a []) last = [] := by
  rw [occurrencesFrom, h]
  rfl

lemma occurrencesFrom_past {c : Char} (h : p.matchAt (between a (c :: r)) = none) :
    p.occurrencesFrom (between a (c :: r)) last =
      p.occurrencesFrom (between (a ++ [c]) r) last := by
  rw [occurrencesFrom, h, ← past_between]
  rfl

lemma occurrencesFrom_found {u v : Text} (hu : u ≠ [])
    (h : p.matchAt (between a (u ++ v)) = some (m, between (a ++ u) v)) :
    p.occurrencesFrom (between a (u ++ v)) last =
      m :: p.occurrencesFrom (between (a ++ u) v) (some (byteLength (a ++ u))) := by
  have hshort : (between (a ++ u) v).rest.length < (between a (u ++ v)).rest.length := by
    have hpos := length_pos_of_ne_nil hu
    simp only [between_rest, length_append]
    omega
  rw [occurrencesFrom, h]
  simp only [hshort, if_true]
  rfl

/-- Behind the first character of a word no whole word begins before its end. -/
lemma occurrencesFrom_word (hx : isIdentifier x = true) (ha : endsWord a = true)
    (hw : ∀ c ∈ w, isWordChar c = true) :
    (wholeWord x).occurrencesFrom (between a (w ++ r)) last =
      (wholeWord x).occurrencesFrom (between (a ++ w) r) last := by
  induction w generalizing a with
  | nil => rw [nil_append, append_nil]
  | cons c w ih =>
    have hnone : (wholeWord x).matchAt (between a (c :: (w ++ r))) = none := by
      by_contra hsome
      obtain ⟨⟨m, there⟩, hmatch⟩ := Option.ne_none_iff_exists'.mp hsome
      obtain ⟨_, _, -, -, ha', -⟩ := (matchAt_wholeWord_iff hx).mp hmatch
      rw [ha] at ha'
      simp at ha'
    have hends : endsWord (a ++ [c]) = true := by
      rw [endsWord_append (by simp)]
      exact hw c mem_cons_self
    rw [cons_append, occurrencesFrom_past hnone, ih hends (forall_mem_cons.mp hw).2]
    simp

end Pattern

/-! ## Along the links -/

/-- The words of some links that equal `x`, where `here` is the byte offset of the links. -/
def wordsFrom (x : Text) : Nat → List Link → List Capture
  | _, [] => []
  | here, .sep c :: links => wordsFrom x (here + c.utf8Size) links
  | here, .word w _ :: links =>
    (if sameWord x w then [⟨here, w⟩] else []) ++ wordsFrom x (here + byteLength w) links

/-- The words of some links that are uses of `x`; `inside` and `owned` tell what stands before
them. -/
def usesFrom (x : Text) : Bool → Bool → Nat → List Link → List Capture
  | _, _, _, [] => []
  | inside, _, here, .sep c :: links =>
    usesFrom x (insideAfter inside [c]) (owns c) (here + c.utf8Size) links
  | inside, owned, here, .word w _ :: links =>
    (if !inside && !owned && sameWord x w then [⟨here, w⟩] else []) ++
      usesFrom x inside false (here + byteLength w) links

open Pattern in
/-- The search for a name stops at the words that equal it. -/
lemma map_whole_occurrencesFrom (hx : isIdentifier x = true) (h : Aligned x y links) {a : Text}
    (ha : (endsWord a && links.head?.any Link.isWord) = false) (last : Option Nat) :
    ((wholeWord x).occurrencesFrom (between a (oldText links)) last).map (·.whole) =
      wordsFrom x (byteLength a) links := by
  -- On the links; between two of them the search never begins within a word.
  induction h generalizing a last with
  | nil =>
    have hnone : (wholeWord x).matchAt (between a []) = none := by
      refine matchAt_wholeWord_eq_none hx fun w r hb hw _ => ?_
      exact absurd (append_eq_nil_iff.mp hb.symm).1 hw.ne_nil
    rw [oldText_nil, occurrencesFrom_end hnone]
    rfl
  | @sep c links hc h ih =>
    have hnone : (wholeWord x).matchAt (between a (c :: oldText links)) = none := by
      refine matchAt_wholeWord_eq_none hx fun w r hb hw _ => ?_
      have hstart := hw.startsWord_append r
      rw [← hb, startsWord_cons, hc] at hstart
      simp at hstart
    have hends : endsWord (a ++ [c]) = false := by rwa [endsWord_append (by simp)]
    rw [oldText_sep, occurrencesFrom_past hnone, ih (by rw [hends, Bool.false_and]), wordsFrom,
      byteLength_append]
    rfl
  | @word w w' links hw hnew hnext h ih =>
    have ha' : endsWord a = false := by simpa [Link.isWord] using ha
    have hends : endsWord (a ++ w) = true := by rw [endsWord_append hw.ne_nil, hw.endsWord]
    have hstart : startsWord (oldText links) = false := by rw [h.startsWord_old, hnext]
    have hrest := fun last => ih (a := a ++ w) (by rw [hnext, Bool.and_false]) last
    rw [oldText_word, wordsFrom]
    cases hsame : sameWord x w with
    | true =>
      have hmatch := (matchAt_wholeWord_iff (a := a) hx).mpr
        ⟨w, oldText links, rfl, hsame, ha', hstart, rfl, rfl⟩
      rw [occurrencesFrom_found hw.ne_nil hmatch, map_cons, hrest, byteLength_append]
      rfl
    | false =>
      have hnone : (wholeWord x).matchAt (between a (w ++ oldText links)) = none := by
        refine matchAt_wholeWord_eq_none hx fun v r hb hv hr => ?_
        obtain ⟨rfl, -⟩ := hw.append_inj hv hstart hr hb
        exact hsame
      -- A word that fails at its start fails at every later place in it too.
      have hskip : (wholeWord x).occurrencesFrom (between a (w ++ oldText links)) last =
          (wholeWord x).occurrencesFrom (between (a ++ w) (oldText links)) last := by
        obtain ⟨c, v, rfl⟩ := exists_cons_of_ne_nil hw.ne_nil
        have hc := hw.chars c mem_cons_self
        rw [cons_append] at hnone ⊢
        rw [occurrencesFrom_past hnone, occurrencesFrom_word hx]
        · simp
        · rwa [endsWord_append (by simp)]
        · exact (forall_mem_cons.mp hw.chars).2
      rw [hskip, hrest, byteLength_append]
      rfl

/-- The whole words that equal a name, along links of the text. -/
lemma Pattern.map_whole_occurrences (hx : isIdentifier x = true) (h : Aligned x y links) :
    ((wholeWord x).occurrences (oldText links)).map (·.whole) = wordsFrom x 0 links :=
  map_whole_occurrencesFrom hx h (a := []) rfl none

lemma wordsFrom_append (x : Text) (here : Nat) (l l' : List Link) :
    wordsFrom x here (l ++ l') =
      wordsFrom x here l ++ wordsFrom x (here + byteLength (oldText l)) l' := by
  induction l generalizing here with
  | nil => rfl
  | cons link l ih =>
    cases link with
    | sep c =>
      rw [cons_append, wordsFrom, wordsFrom, ih, oldText_sep, byteLength_cons, Nat.add_assoc]
    | word w w' =>
      rw [cons_append, wordsFrom, wordsFrom, ih, oldText_word, byteLength_append,
        Nat.add_assoc, append_assoc]

lemma isOwned_eq (a rest : Text) : isOwned (a ++ rest) (byteLength a) = ownedAfter false a := by
  rw [isOwned, takeBytes_append, ownedAfter]
  cases a.getLast? <;> rfl

/-- Of the words that equal a name, the uses are those that renaming replaces. -/
lemma filter_wordsFrom (haligned : Aligned x y links) (a comment : Text) :
    ((wordsFrom x (byteLength a) links).filter fun found =>
        !inString (a ++ oldText links ++ comment) found.start).filter
        (fun found => !isOwned (a ++ oldText links) found.start) =
      usesFrom x (insideAfter false a) (ownedAfter false a) (byteLength a) links := by
  -- On the links; what is in front tells whether a string is open and who owns a word.
  induction haligned generalizing a with
  | nil => rfl
  | @sep c links hc _ ih =>
    have hlead := ih (a ++ [c])
    rw [insideAfter_append, ownedAfter_append, byteLength_append] at hlead
    rw [wordsFrom, usesFrom, oldText_sep]
    simpa [ownedAfter_cons] using hlead
  | @word w w' links hw _ _ _ ih =>
    have hlead := ih (a ++ w)
    have hinside : insideAfter false (a ++ w) = insideAfter false a := by
      rw [insideAfter_append, ← append_nil w, insideAfter_word hw.chars]
      rfl
    have howned : ownedAfter false (a ++ w) = false := by
      rw [ownedAfter_append, ← append_nil w, ownedAfter_word hw]
      rfl
    rw [hinside, howned, byteLength_append, append_assoc a] at hlead
    rw [wordsFrom, usesFrom, oldText_word, filter_append, filter_append, hlead]
    have hstring := inString_eq a (w ++ oldText links ++ comment)
    have howner := isOwned_eq a (w ++ oldText links)
    cases hsame : sameWord x w with
    | false => simp
    | true =>
      rw [append_assoc a]
      simp only [if_true, Bool.and_true, filter_cons, filter_nil, hstring]
      cases insideAfter false a with
      | true => rfl
      | false => simp [howner, filter_cons]

lemma placed_usesFrom (haligned : Aligned x y links) (inside owned : Bool) (here : Nat) :
    Placed here (oldText links) (usesFrom x inside owned here links) := by
  induction haligned generalizing inside owned here with
  | nil => exact .nil _ _
  | @sep c links hc _ ih =>
    change Placed here ([c] ++ oldText links) _
    exact Placed.append_left (ih _ _ _)
  | @word w w' links _ _ _ _ ih =>
    rw [usesFrom, oldText_word]
    split
    case isTrue => exact @Placed.cons here [] _ ⟨here, w⟩ _ rfl (ih _ _ _)
    case isFalse => exact Placed.append_left (ih _ _ _)

/-- Putting `y` in the place of the uses gives the new side. -/
lemma substitute_usesFrom (haligned : Aligned x y links) {owned : Bool}
    (h : Thorough x y inside owned links) (here : Nat) :
    substitute (fun _ => y) here (oldText links) (usesFrom x inside owned here links) =
      newText links := by
  induction haligned generalizing inside owned here with
  | nil => rfl
  | @sep c links hc haligned ih =>
    change substitute _ here ([c] ++ oldText links) (usesFrom x _ (owns c) (here + byteLength [c])
      links) = [c] ++ newText links
    rw [substitute_append_left (placed_usesFrom haligned _ _ _), ih h]
  | @word w w' links _ _ _ haligned ih =>
    obtain ⟨hw', hrest⟩ := h
    rw [usesFrom, oldText_word, newText_word, hw']
    split
    case isTrue =>
      have hstart : (Capture.mk here w).start = here + byteLength ([] : Text) := rfl
      have hstep : substitute (fun _ => y) here ([] ++ (w ++ oldText links))
          (⟨here, w⟩ :: usesFrom x inside false (here + byteLength w) links) = _ :=
        substitute_cons (fun _ => y) hstart _
      rw [nil_append] at hstep
      rw [singleton_append, hstep, nil_append]
      exact congrArg (y ++ ·) (ih hrest (here + byteLength w))
    case isFalse =>
      rw [nil_append, substitute_append_left (placed_usesFrom haligned _ _ _), ih hrest]

/-! ## A renamed line -/

lemma codeFrom_word (hw : ∀ c ∈ w, isWordChar c = true) (inside : Bool) (rest : Text) :
    codeFrom inside (w ++ rest) = w ++ codeFrom inside rest := by
  have hnot : ∀ d, isWordChar d = false → d ∉ w := fun d hd hmem =>
    ne_of_isWordChar hd (hw d hmem) rfl
  exact codeFrom_append_of_notMem (hnot _ (by decide)) (hnot _ (by decide)) inside rest

/-- Words do not decide where the comment begins. -/
lemma codeFrom_newText (hy : IsWord y) (haligned : Aligned x y links)
    (h : codeFrom inside (oldText links ++ comment) = oldText links) :
    codeFrom inside (newText links ++ comment) = newText links := by
  induction haligned generalizing inside with
  | nil => exact h
  | @sep c links hc _ ih =>
    rw [oldText_sep, cons_append, codeFrom_cons] at h
    rw [newText_sep, cons_append, codeFrom_cons]
    split at h
    case isTrue => cases h
    case isFalse hkept => rw [if_neg hkept, ih (List.cons.inj h).2]
  | @word w w' links hw hnew _ _ ih =>
    have hw' := Aligned.isWord_new hy hw hnew
    rw [oldText_word, append_assoc, codeFrom_word hw.chars] at h
    rw [newText_word, append_assoc, codeFrom_word hw'.chars, ih (append_cancel_left h)]

/-- The uses of a name in a line, read along the links of its code. -/
lemma usesInLine_eq (hx : isIdentifier x = true) (haligned : Aligned x y links) {line : Text}
    (hcode : oldText links = codePart line) :
    usesInLine x line = usesFrom x false false 0 links := by
  obtain ⟨comment, hline⟩ := codePart_isPrefix line
  have hwords := Pattern.map_whole_occurrences hx haligned
  have hfilter := filter_wordsFrom haligned [] comment
  rw [nil_append, byteLength_nil, hcode, hline] at hfilter
  rw [hcode] at hwords
  rw [← hwords] at hfilter
  exact hfilter

/-- A line with another name in the place of the uses of a name holds the new side of its links. -/
lemma substitute_usesInLine (hx : isIdentifier x = true) (haligned : Aligned x y links)
    (hthorough : Thorough x y false false links)
    (hcode : codePart (oldText links ++ comment) = oldText links) :
    substitute (fun _ => y) 0 (oldText links ++ comment)
      (usesInLine x (oldText links ++ comment)) = newText links ++ comment := by
  rw [usesInLine_eq hx haligned hcode.symm,
    substitute_append_right (placed_usesFrom haligned false false 0),
    substitute_usesFrom haligned hthorough]

/-- **Renaming a line.**  The uses of a name stand in the line apart from each other, and the line
with another name in their place has the renamed code. -/
theorem renamed_codePart (hx : isIdentifier x = true) (hy : IsWord y) (line : Text) :
    Placed 0 line (usesInLine x line) ∧
      Renamed x y (codePart line)
        (codePart (substitute (fun _ => y) 0 line (usesInLine x line))) := by
  obtain ⟨links, haligned, hcode, hthorough⟩ := exists_links x y false false (codePart line)
  obtain ⟨comment, rfl⟩ : ∃ comment, line = oldText links ++ comment := by
    obtain ⟨comment, hline⟩ := codePart_isPrefix line
    exact ⟨comment, by rw [hcode, hline]⟩
  constructor
  · rw [usesInLine_eq hx haligned hcode]
    exact (placed_usesFrom haligned false false 0).append_right comment
  · have hnew := codeFrom_newText hy haligned hcode.symm
    refine ⟨links, haligned, hthorough, hcode, ?_⟩
    rw [substitute_usesInLine hx haligned hthorough hcode.symm]
    exact hnew.symm

lemma placed_usesInLine (hx : isIdentifier x = true) (line : Text) :
    Placed 0 line (usesInLine x line) :=
  (renamed_codePart hx (isWord_of_isIdentifier hx) line).1

/-! ## The references of documents -/

lemma noBreak_of_isWord {w : Text} (hw : IsWord w) : NoBreak w := by
  intro c hc
  have hchar := hw.chars c hc
  exact ⟨ne_of_isWordChar (by decide) hchar, ne_of_isWordChar (by decide) hchar⟩

lemma exists_applyEdits_uses (hx : isIdentifier x = true) (hy : isIdentifier y = true)
    (text : Text) :
    ∃ text', text.applyEdits (lineEdits text y (usesInLine x) text.lines.zipIdx) = some text' ∧
      text'.lines = text.lines.map (fun l => substitute (fun _ => y) 0 l (usesInLine x l)) ∧
      text'.breaks = text.breaks :=
  have hword := isWord_of_isIdentifier hy
  exists_applyEdits_lineEdits (noBreak_of_isWord hword) hword.ne_nil
    fun line _ => placed_usesInLine hx line

lemma references_cons (f : SourceFile) (files : List SourceFile) (x : Text) (b : Bool) :
    references (f :: files) x b = references [f] x b ++ references files x b := by
  simp [references]

lemma exists_uri_of_mem_references {b : Bool} {l : Location}
    (h : l ∈ references files x b) : ∃ f ∈ files, l.uri = f.uri := by
  obtain ⟨f, hf, h⟩ := mem_flatMap.mp h
  obtain ⟨⟨line, number⟩, -, h⟩ := mem_flatMap.mp h
  obtain ⟨p, -, rfl⟩ := mem_map.mp h
  exact ⟨f, hf, rfl⟩

lemma references_eq_nil (h : ∀ f ∈ files, ∀ line ∈ f.text.lines, usesInLine x line = []) :
    references files x true = [] := by
  refine flatMap_eq_nil_iff.mpr fun f hf => flatMap_eq_nil_iff.mpr ?_
  rintro ⟨line, number⟩ hline
  simp [h f hf line (fst_mem_of_mem_zipIdx hline)]

/-- Edits of the references in a document are edits line by line. -/
lemma map_references_singleton (f : SourceFile) (x y : Text) :
    (references [f] x true).map (fun l => TextEdit.mk l.range y) =
      lineEdits f.text y (usesInLine x) f.text.lines.zipIdx := by
  simp [references, lineEdits, map_flatMap, Function.comp_def]

end KrlWorkbench
