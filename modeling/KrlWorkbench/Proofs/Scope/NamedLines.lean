import KrlWorkbench.Proofs.CaseIndependence.Texts
import KrlWorkbench.Proofs.Code.MaskedLists
import KrlWorkbench.Proofs.Symbol.LineForms
import KrlWorkbench.Scope.Search

/-!
# Declared names are found in their lines

A search for the declaration of a variable looks for a `DECL` or `SIGNAL` line with its strings
blanked out that mentions the name.  The table of symbols reads the line as it is written and takes
it to pieces.  What the table reads off a line stands there as a whole word, outside strings and
behind a blank or a comma (`NamedIn`, `Symbol.namedIn_of_mem_ofLine`), so the search finds it if the
line says `DECL` or `SIGNAL` (`Declaration.isSome_nameIn?_of_mem_ofLine`).
-/

namespace KrlWorkbench

open List Code LineRule Text

variable {b code line u v : Text} {types : List Text} {m : Match}

/-! ## Whole words -/

/-- The search for a name passes over none of its spellings. -/
lemma exists_mem_occurrences_wholeWord {x a w : Text} (hx : isIdentifier x = true)
    (hsame : sameWord x w = true) (ha : endsWord a = false) (hb : startsWord b = false) :
    ∃ m ∈ (Pattern.wholeWord x).occurrences (a ++ (w ++ b)), m.whole = ⟨byteLength a, w⟩ := by
  obtain ⟨before, hbefore, rfl, -⟩ := exists_links x x false false a
  obtain ⟨behind, hbehind, rfl, -⟩ := exists_links x x false false b
  have hword : Aligned x x (.word w w :: behind) :=
    .word (isWord_of_sameName hx hsame) (.inl rfl) (by rw [← hbehind.startsWord_old, hb]) hbehind
  have hwords := Pattern.map_whole_occurrences hx (hbefore.append hword (.inl ha))
  have hmem : (⟨byteLength (oldText before), w⟩ : Capture) ∈
      wordsFrom x 0 (before ++ .word w w :: behind) := by
    rw [wordsFrom_append, Nat.zero_add, wordsFrom, hsame]
    simp
  rw [← hwords, mem_map] at hmem
  obtain ⟨m, hm, hwhole⟩ := hmem
  refine ⟨m, ?_, hwhole⟩
  rw [oldText_append, oldText_word] at hm
  exact hm

/-! ## Names in a line -/

/-- The code holds `w` as a whole word, outside strings and behind a blank or a comma. -/
def NamedIn (w code : Text) : Prop :=
  ∃ a b, code = a ++ (w ++ b) ∧ insideAfter false a = false ∧
    (∃ d, a.getLast? = some d ∧ (isBlank d = true ∨ d = ',')) ∧ startsWord b = false

lemma startsWord_append {a : Text} (ha : startsWord a = false) (hb : startsWord b = false) :
    startsWord (a ++ b) = false := by
  cases a with
  | nil => exact hb
  | cons c a => exact ha

namespace ListItem

/-- Behind what stands before the equals sign no word begins. -/
lemma exists_splitInitialFrom_append (depth : Int) (inside : Bool) (item : Text) :
    ∃ rest, item = (splitInitialFrom depth inside item).1 ++ rest ∧ startsWord rest = false := by
  induction item generalizing depth inside with
  | nil => exact ⟨[], rfl, rfl⟩
  | cons c item ih =>
    rw [splitInitialFrom]
    split
    case isTrue h =>
      simp only [Bool.and_eq_true, beq_iff_eq] at h
      obtain ⟨⟨rfl, -⟩, -⟩ := h
      exact ⟨'=' :: item, rfl, by rw [startsWord_cons]; decide⟩
    case isFalse =>
      obtain ⟨rest, hrest, hstart⟩ := ih _ _
      exact ⟨rest, congrArg (c :: ·) hrest, hstart⟩

/-- The name of an item stands behind blanks, and behind the name no word begins. -/
lemma exists_itemName_append (item : Text) :
    ∃ lead rest, item = lead ++ (itemName item ++ rest) ∧ IsBlanks lead ∧
      startsWord rest = false := by
  obtain ⟨value, hvalue, hvalue'⟩ := exists_splitInitialFrom_append 0 false item
  set left := (splitInitialFrom 0 false item).1 with hleft
  obtain ⟨lead, tail, hlead, htail, hname⟩ := exists_append_trim (left.takeWhile (· != '['))
  have hindex : startsWord (left.dropWhile (· != '[')) = false := by
    cases hrest : left.dropWhile (· != '[') with
    | nil => rfl
    | cons c rest =>
      have hc := head?_dropWhile_not (· != '[') left
      rw [hrest] at hc
      obtain rfl : c = '[' := by simpa using hc
      rw [startsWord_cons]
      decide
  refine ⟨lead, tail ++ (left.dropWhile (· != '[') ++ value), ?_, hlead, ?_⟩
  · have hitem : itemName item = trim (left.takeWhile (· != '[')) := by
      rw [itemName, stripIndex_trim]
      rfl
    calc item = left.takeWhile (· != '[') ++ left.dropWhile (· != '[') ++ value := by
          rw [takeWhile_append_dropWhile]
          exact hvalue
      _ = lead ++ (trim (left.takeWhile (· != '[')) ++ tail) ++
            left.dropWhile (· != '[') ++ value := by rw [← hname]
      _ = _ := by rw [hitem]; simp
  · exact startsWord_append (startsWord_of_isBlanks htail) (startsWord_append hindex hvalue')

/-- The first piece of a list ends with the list or before a comma. -/
lemma exists_append_of_pieces {depth : Nat} {inside : Bool} {list first : Text} {more : List Text}
    (h : pieces depth inside list = first :: more) :
    ∃ q, list = first ++ q ∧ startsWord q = false := by
  induction list generalizing depth inside first more with
  | nil => exact ⟨[], by rw [← (List.cons.inj h).1]; rfl, rfl⟩
  | cons c list ih =>
    rcases pieces_cons_cases depth inside c with ⟨depth', hcons⟩ | ⟨rfl, -, hcons⟩
    · obtain ⟨first', more', hmore⟩ := exists_cons_of_ne_nil
        (pieces_ne_nil depth' (insideAfter inside [c]) list)
      rw [hcons, hmore, consPiece] at h
      obtain ⟨q, hlist, hq⟩ := ih hmore
      exact ⟨q, by rw [← (List.cons.inj h).1, hlist, cons_append], hq⟩
    · rw [hcons] at h
      exact ⟨',' :: list, by rw [← (List.cons.inj h).1, nil_append],
        by rw [startsWord_cons]; decide⟩

/-- A later piece begins behind a comma outside strings. -/
lemma exists_append_of_mem_tail_pieces {depth : Nat} {inside : Bool} {list piece : Text}
    (h : piece ∈ (pieces depth inside list).tail) :
    ∃ p q, list = p ++ (piece ++ q) ∧ startsWord q = false ∧
      p.getLast? = some ',' ∧ insideAfter inside p = false := by
  induction list generalizing depth inside with
  | nil => cases h
  | cons c list ih =>
    rcases pieces_cons_cases depth inside c with ⟨depth', hcons⟩ | ⟨rfl, rfl, hcons⟩
    · have htail : piece ∈ (pieces depth' (insideAfter inside [c]) list).tail := by
        rw [hcons] at h
        cases hmore : pieces depth' (insideAfter inside [c]) list with
        | nil => exact absurd hmore (pieces_ne_nil _ _ _)
        | cons first more => rwa [hmore] at h
      obtain ⟨p, q, rfl, hq, hlast, hinside⟩ := ih htail
      exact ⟨c :: p, q, rfl, hq, by rw [getLast?_cons, hlast]; rfl, hinside⟩
    · -- The comma ends an empty piece, and the pieces behind it are the later ones.
      rw [hcons, tail_cons] at h
      obtain ⟨first, more, hmore⟩ := exists_cons_of_ne_nil (pieces_ne_nil depth false list)
      rw [hmore] at h
      rcases mem_cons.mp h with rfl | h
      · obtain ⟨q, rfl, hq⟩ := exists_append_of_pieces hmore
        exact ⟨[','], q, rfl, hq, rfl, rfl⟩
      · obtain ⟨p, q, rfl, hq, hlast, hinside⟩ := ih  (by rwa [hmore])
        exact ⟨',' :: p, q, rfl, hq, by rw [getLast?_cons, hlast]; rfl, hinside⟩

/-- A piece of a list begins with the list or behind a comma outside strings, and ends with the list
or before a comma. -/
lemma exists_append_of_mem_pieces {list piece : Text} (h : piece ∈ pieces 0 false list) :
    ∃ p q, list = p ++ (piece ++ q) ∧ startsWord q = false ∧ insideAfter false p = false ∧
      (p = [] ∨ p.getLast? = some ',') := by
  obtain ⟨first, more, hpieces⟩ := exists_cons_of_ne_nil (pieces_ne_nil 0 false list)
  rw [hpieces] at h
  rcases mem_cons.mp h with rfl | h
  · obtain ⟨q, hlist, hq⟩ := exists_append_of_pieces hpieces
    exact ⟨[], q, hlist, hq, rfl, .inl rfl⟩
  · obtain ⟨p, q, hlist, hq, hlast, hinside⟩ :=
      exists_append_of_mem_tail_pieces (by rwa [hpieces])
    exact ⟨p, q, hlist, hq, hinside, .inr hlast⟩

end ListItem

namespace Symbol

variable {text code : Text} {line : Nat} {s : Symbol}

lemma placed_of_mem_ofTypedList {parts : TypedList} (hs : s ∈ ofTypedList text line parts) :
    s.kind = .var ∧ s.range.isSome = true := by
  obtain ⟨item, -, hs⟩ := mem_filterMap.mp hs
  dsimp only at hs
  split_ifs at hs
  obtain rfl := Option.some.inj hs
  exact ⟨rfl, rfl⟩

lemma namedIn_of_mem_split {parts : TypedList} {item : ListItem}
    (hparts : TypedList.ofCode? types code = some parts)
    (hitem : item ∈ ListItem.split parts.list) : NamedIn item.name code := by
  obtain ⟨front, rfl, hfront, d, hd, hblank⟩ := TypedList.exists_front hparts
  have hpiece : item.text ∈ ListItem.pieces 0 false parts.list := by
    rw [← ListItem.map_text_split]
    exact mem_map_of_mem hitem
  obtain ⟨p, q, hlist, hq, hp, hcomma⟩ := ListItem.exists_append_of_mem_pieces hpiece
  obtain ⟨lead, rest, htext, hlead, hrest⟩ := ListItem.exists_itemName_append item.text
  have hinside : insideAfter false (front ++ p) = false := by
    rw [insideAfter_append, insideAfter_of_not_mem hfront, hp]
  have hlast : ∃ d, (front ++ p).getLast? = some d ∧ (isBlank d = true ∨ d = ',') := by
    rcases hcomma with rfl | hcomma
    · rw [append_nil]
      exact ⟨d, hd, .inl hblank⟩
    · rw [getLast?_append, hcomma]
      exact ⟨',', rfl, .inr rfl⟩
  refine ⟨front ++ p ++ lead, rest ++ q, ?_, ?_, ?_, startsWord_append hrest hq⟩
  · conv_lhs => rw [hlist, htext]
    simp only [append_assoc]
    rfl
  · rw [insideAfter_append, hinside, insideAfter_of_not_mem (not_mem_of_isBlanks hlead)]
  · cases hend : lead.getLast? with
    | none =>
      rwa [getLast?_eq_none_iff.mp hend, append_nil]
    | some c =>
      rw [getLast?_append, hend]
      exact ⟨c, rfl, .inl (hlead c (mem_of_getLast? hend))⟩

end Symbol

/-! ## Signals -/

namespace LineRule

open Pattern

/-- The rule for signals up to the name. -/
def signalFront : Pattern :=
  indent ++ maybe 1 "GLOBAL" ++ keyword "SIGNAL" ++ gap

/-- A signal is named behind the front of its rule, up to the next blank. -/
lemma exists_signalFront (hline : ∀ d ∈ code, isInLine d = true) (h : signal.find? code = some m) :
    ∃ u v found, code = u ++ v ∧ Fits signalFront (between [] code) u v found ∧
      m.group? 2 = some ⟨byteLength u, v.takeWhile isSolid⟩ := by
  rw [find?, find?_of_startsText rfl] at h
  obtain ⟨⟨m, there⟩, hmatch, rfl⟩ := Option.map_eq_some_iff.mp h
  rw [matchAt, run_signal] at hmatch
  obtain ⟨u, v, found, hcode, hfits, htail⟩ := exists_fits_of_run hmatch
  obtain rfl : code = u ++ v := hcode
  refine ⟨u, v, found, rfl, hfits, ?_⟩
  have hv : ∀ d ∈ v, isInLine d = true := fun d hd => hline d (mem_append_right _ hd)
  rw [skip_between, nil_append] at htail
  cases hgoes : goesOn v with
  | false =>
    rw [run_signalTail_eq_none hgoes] at htail
    simp at htail
  | true =>
    obtain ⟨value, hvalue⟩ := run_signalTail_of_goesOn hv hgoes
    rw [hvalue _ rfl, Option.some.injEq, Prod.mk.injEq] at htail
    rw [← htail.1]
    rfl

end LineRule

lemma namedIn_of_signal (hline : ∀ d ∈ code, isInLine d = true)
    (hm : signal.find? code = some m) {name : Capture} (hgroup : m.group? 2 = some name) :
    NamedIn name.text code := by
  obtain ⟨u, v, found, rfl, hfits, hname⟩ := exists_signalFront hline hm
  obtain rfl := Option.some.inj (hgroup.symm.trans hname)
  obtain ⟨d, hd, hblank⟩ := hfits.getLast?_of_gap
  refine ⟨u, v.dropWhile isSolid, ?_, ?_, ⟨d, hd, .inl hblank⟩, ?_⟩
  · rw [takeWhile_append_dropWhile]
  · exact insideAfter_of_not_mem (hfits.not_mem_of_stopsAt (by decide +kernel))
  · cases hrest : v.dropWhile isSolid with
    | nil => rfl
    | cons c rest =>
      have hc := head?_dropWhile_not isSolid v
      rw [hrest] at hc
      exact isWordChar_of_isBlank (by simpa [isSolid] using hc)

/-- **What a line declares is named in it.** -/
lemma Symbol.namedIn_of_mem_ofLine {text : Text} {line : Nat} {s : Symbol}
    (hline : ∀ d ∈ code, isInLine d = true) (hs : s ∈ ofLine text types line code)
    (hkind : s.kind = .var ∨ s.kind = .signal) :
    isIdentifier s.name = true ∧ NamedIn s.name code := by
  cases fromLine_of_mem hs with
  | signal hfound hgroup hname => exact ⟨hname, namedIn_of_signal hline hfound hgroup⟩
  | var hparts hitem hname => exact ⟨hname, namedIn_of_mem_split hparts hitem⟩
  | _ => simp at hkind

/-! ## The search -/

namespace Code

lemma startsWord_maskFrom (hb : startsWord b = false) : startsWord (maskFrom false b) = false := by
  cases b with
  | nil => rfl
  | cons c b =>
    rw [maskFrom_cons, startsWord_cons]
    by_cases hc : c = '"'
    · rw [hc]
      decide
    · rw [maskChar_false hc]
      exact hb

lemma clean_eq_append (hcode : codePart line = u ++ v) (hquote : '"' ∉ u) :
    clean line = u ++ maskFrom false v := by
  rw [clean, mask, hcode, maskFrom_append, maskFrom_false_of_not_mem hquote,
    insideAfter_of_not_mem hquote]

end Code

namespace Declaration

open Pattern LineRule

/-- A name that stands in the code of a line is found there, if the line has the shape. -/
lemma isSome_nameIn? {n w : Text} (hn : isIdentifier n = true) (hsame : sameWord n w = true)
    (hnamed : NamedIn w (codePart line))
    (hshape : (linePattern n .var).isIn (clean line) = true) :
    (nameIn? n .var line).isSome = true := by
  obtain ⟨a, b, hcode, hinside, ⟨d, hd, hsep⟩, hb⟩ := hnamed
  have hw : IsWord w := isWord_of_sameName hn hsame
  have hquote : '"' ∉ w := fun hmem => ne_of_isWordChar (by decide) (hw.chars _ hmem) rfl
  have hclean : clean line = maskFrom false a ++ (w ++ maskFrom false b) := by
    rw [clean, mask, hcode, maskFrom_append, maskFrom_append, hinside,
      maskFrom_false_of_not_mem hquote, insideAfter_of_not_mem hquote]
  -- The separator in front is no sign that makes the name another one.
  have hblank : ∀ c, isWordChar c = true ∨ c = '"' ∨ c = '$' ∨ c = '#' ∨ c = '.' → d ≠ c := by
    rintro c hc rfl
    rcases hsep with hsep | rfl
    · rcases hc with hc | rfl | rfl | rfl | rfl
      · rw [isBlank_of_isWordChar hc] at hsep
        simp at hsep
      all_goals exact absurd hsep (by decide)
    · exact absurd hc (by decide)
  have hlast := getLast?_maskFrom hd (hblank '"' (by simp)) hinside
  have hends : endsWord (maskFrom false a) = false := by
    rw [endsWord, hlast, Option.any_some]
    by_contra hword
    exact hblank d (.inl (by simpa using hword)) rfl
  obtain ⟨m, hm, hwhole⟩ := exists_mem_occurrences_wholeWord hn hsame hends
    (startsWord_maskFrom hb)
  rw [nameIn?]
  simp only [hshape, if_true, Option.isSome_map, find?_isSome]
  refine ⟨m, by rwa [hclean], ?_⟩
  rw [hwhole, hclean, charBefore, takeBytes_append, hlast]
  simp [hblank '$' (by simp), hblank '#' (by simp), hblank '.' (by simp)]

/-- The front of the shape, up to the keyword, decides. -/
lemma isIn_linePattern (n : Text) {k : String} (hk : k = "DECL" ∨ k = "SIGNAL") {v' : Text}
    {found : Groups} (hv : startsWord v' = false)
    (h : Fits (indent ++ skip "GLOBAL" ++ skip "CONST" ++ keyword k) (between [] (u ++ v)) u v
      found) : (linePattern n .var).isIn (u ++ v') = true := by
  obtain ⟨front, w, f, f', rfl, rfl, hfront, hword⟩ := h.exists_of_append
  have hw : IsWord w := by
    refine isWord_of_sameName ?_ hword.sameWord_of_word.1
    rcases hk with rfl | rfl <;> decide
  have hfront' := hfront.elsewhere rfl (between [] (front ++ w ++ v')) rfl rfl (w ++ ([] ++ v'))
  have hword' := hword.elsewhere (by rcases hk with rfl | rfl <;> rfl)
    ((between [] (front ++ w ++ v')).skip front (w ++ ([] ++ v'))) rfl rfl ([] ++ v')
  have hlead : Fits (indent ++ skip "GLOBAL" ++ skip "CONST" ++ anyKeyword ["DECL", "SIGNAL"])
      (between [] (front ++ w ++ v')) (front ++ w) ([] ++ v') (f' ++ f) := by
    refine .seq hfront' ?_
    rcases hk with rfl | rfl
    · exact .altLeft hword'
    · exact .altRight hword'
  have hboundary : Fits .wordBoundary
      ((between [] (front ++ w ++ v')).skip (front ++ w) ([] ++ v')) [] v' [] := by
    refine .wordBoundary ?_
    rw [isWordBoundary_skip hw, hv]
    rfl
  have hall : Fits (linePattern n .var) (between [] (front ++ w ++ v')) (front ++ w ++ []) v'
      ([] ++ (f' ++ f)) := .seq hlead hboundary
  exact isIn_of_fits hall (by simp)

lemma isIn_linePattern_of_decl (n : Text) (h : declKeyword.holds (codePart line) = true) :
    (linePattern n .var).isIn (clean line) = true := by
  obtain ⟨m, hm⟩ := Option.isSome_iff_exists.mp h
  obtain ⟨u, v, hcode, hfits⟩ := exists_fits_of_find? rfl hm
  rw [hcode] at hfits
  obtain ⟨u, b, _, _, rfl, -, hfits, hboundary⟩ := hfits.exists_of_append
  have hquote : '"' ∉ u := hfits.not_mem_of_stopsAt (by decide +kernel)
  cases hboundary with
  | wordBoundary hboundary =>
    have hv : startsWord v = false := by
      obtain ⟨front, w, _, _, rfl, -, -, hword⟩ := hfits.exists_of_append
      have hw : IsWord w := isWord_of_sameName (by decide) hword.sameWord_of_word.1
      rw [isWordBoundary_skip hw] at hboundary
      simpa using hboundary
    rw [append_nil] at hcode
    rw [append_nil, nil_append] at hfits
    rw [clean_eq_append hcode hquote]
    exact isIn_linePattern n (.inl rfl) (startsWord_maskFrom hv) hfits

/-- What fits with a group fits without one. -/
lemma fits_skip_of_maybe {i : Nat} {k : String} {here : Cursor} {found : Groups}
    (h : Fits (maybe i k) here u v found) : ∃ found', Fits (skip k) here u v found' := by
  cases h with
  | altRight h => exact ⟨_, .altRight h⟩
  | altLeft h =>
    obtain ⟨w, s, _, _, rfl, -, hgroup, hgap⟩ := h.exists_of_append
    cases hgroup with
    | group _ hword => exact ⟨_, .altLeft (.seq hword hgap)⟩

lemma isIn_linePattern_of_signal (n : Text) (hline : ∀ d ∈ codePart line, isInLine d = true)
    (hm : signal.find? (codePart line) = some m) :
    (linePattern n .var).isIn (clean line) = true := by
  obtain ⟨u, v, found, hcode, hfits, -⟩ := exists_signalFront hline hm
  obtain ⟨u, s, _, _, rfl, -, hfits, hgap⟩ := hfits.exists_of_append
  have hquote : '"' ∉ u := hfits.not_mem_of_stopsAt (by decide +kernel)
  have hv : startsWord (s ++ v) = false :=
    startsWord_blanks_append hgap.forall_of_gap.1 hgap.forall_of_gap.2 v
  -- The rule reads `GLOBAL` as a group and the shape does not, and no `CONST` stands here.
  obtain ⟨u, w, _, _, rfl, -, hfits, hword⟩ := hfits.exists_of_append
  obtain ⟨u, g, _, _, rfl, -, hindent, hmaybe⟩ := hfits.exists_of_append
  obtain ⟨found, hskip⟩ := fits_skip_of_maybe hmaybe
  rw [← append_nil (u ++ g)] at hword
  have hfront : Fits (indent ++ skip "GLOBAL" ++ skip "CONST" ++ keyword "SIGNAL")
      (between [] (codePart line)) (u ++ g ++ [] ++ w) (s ++ v) _ :=
    .seq (.seq (.seq hindent hskip) (.altRight (.empty _ _))) hword
  rw [append_assoc] at hcode
  rw [append_nil, hcode] at hfront
  rw [clean_eq_append hcode hquote]
  exact isIn_linePattern n (.inr rfl) (startsWord_maskFrom hv) hfront

/-- **The search finds what the table reads:** a variable in a line that says `DECL`, or a signal.
-/
theorem isSome_nameIn?_of_mem_ofLine {text n : Text} {number : Nat} {s : Symbol}
    (hline : NoBreak line) (hs : s ∈ Symbol.ofLine text types number (codePart line))
    (hname : sameName s.name n = true)
    (hkind : s.kind = .signal ∨ s.kind = .var ∧ declKeyword.holds (codePart line) = true) :
    (nameIn? n .var line).isSome = true := by
  have hcode := isInLine_of_noBreak hline
  have hupper : upper s.name = upper n := by simpa [sameName] using hname
  have hvar : s.kind = .var ∨ s.kind = .signal := hkind.symm.imp_left And.left
  obtain ⟨hident, hnamed⟩ := Symbol.namedIn_of_mem_ofLine hcode hs hvar
  have hn : isIdentifier n = true := by
    rw [← isIdentifier_upper, ← hupper, isIdentifier_upper]
    exact hident
  refine isSome_nameIn? hn (sameWord_of_upper_eq hupper.symm) hnamed ?_
  rcases hkind with hkind | ⟨-, hdecl⟩
  · cases Symbol.fromLine_of_mem hs with
    | signal hfound => exact isIn_linePattern_of_signal n hcode hfound
    | _ => cases hkind
  · exact isIn_linePattern_of_decl n hdecl

end Declaration
end KrlWorkbench
