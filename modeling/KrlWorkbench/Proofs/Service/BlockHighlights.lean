import KrlWorkbench.Proofs.Code.CursorWords
import KrlWorkbench.Proofs.Code.SpelledKeywords
import KrlWorkbench.Proofs.Service.PartnerSearch
import KrlWorkbench.Proofs.Service.TypedPlaces

/-!
# Highlights of the two keywords of a block

On a block keyword the highlights are the keyword and its partner.  The partner is looked for line
by line, so it is the one that the check of blocks pairs with the keyword only if the keywords of
the kind are spread out over lines: the closer stands below the opener and in front of all other
keywords of its kind in its line, and no line between has two (`SpreadOut`).  On the opener this is
what decides (`highlights_blockPair`); on the closer it is enough.
-/

namespace KrlWorkbench

open List BlockEvent Code Context Finding ScopeMark SourceLine Text Window

variable {e : BlockEvent} {p : Position}

section Lines

variable {text : Text} {view : WorkspaceView}

/-! ## Lines of the document and of the check -/

lemma Context.map_raw_lines (text : Text) (view : WorkspaceView) :
    (ofText text view).lines.map (·.raw) = text.lines := by
  simp [ofText, Function.comp_def]

namespace Highlight

variable {above below : List SourceLine} {line : SourceLine} {kind : BlockKind}

lemma map_lineMark_raw (opening closing : Pattern) {lines : List SourceLine}
    (h : ∀ line ∈ lines, line ∈ (ofText text view).lines) :
    ((lines.map (·.raw)).map fun l => lineMark opening closing (clean l)) =
      lines.map fun line => lineMark opening closing line.code := by
  rw [map_map]
  refine map_congr_left fun line hline => ?_
  rw [(getElem?_of_mem_lines (h line hline)).2]
  rfl

/-- The search downward from a line goes through the lines below it. -/
lemma partnerIn_below (h : (ofText text view).lines = above ++ line :: below) :
    partnerIn kind.openerPattern kind.closerPattern 0 (text.lines.drop (line.number + 1)) =
      closerBelow 0 (below.map (firstMark kind)) := by
  have hdrop : text.lines.drop (line.number + 1) = below.map (·.raw) := by
    rw [← map_raw_lines text view, number_eq_length h, h, append_cons,
      ← map_drop, drop_left' (by simp)]
  rw [partnerIn_eq, hdrop, map_lineMark_raw _ _ fun l hl => by rw [h]; simp [hl]]
  rfl

/-- The search upward from a line goes through the lines above it, the nearest first. -/
lemma partnerIn_above (h : (ofText text view).lines = above ++ line :: below) :
    partnerIn kind.closerPattern kind.openerPattern 0 (text.lines.take line.number).reverse =
      closerBelow 0 (above.reverse.map (lastMark kind)) := by
  have htake : (text.lines.take line.number).reverse = above.reverse.map (·.raw) := by
    rw [← map_raw_lines text view, h, number_eq_length h]
    simp
  rw [partnerIn_eq, htake, map_lineMark_raw _ _ fun l hl => by rw [h]; simp_all]
  rfl

/-! ## Ranges of keywords -/

/-- The range that is shown for a keyword is that of the first event of its kind in the line. -/
lemma keywordRange?_eq_some {more : List BlockEvent}
    (hline : line ∈ (ofText text view).lines) (hkeywords : line.keywords kind = e :: more)
    (hspelled : e.SpelledIn line.code) :
    keywordRange? text text.lines line.number e.keyword =
      some (eventRange (ofText text view) e) := by
  obtain ⟨hraw, hcode⟩ := getElem?_of_mem_lines hline
  obtain ⟨m, hfind, hstart, hbytes⟩ := hspelled.exists_find?_eq_some hkeywords
  have hnumber : e.line = line.number := line_eq_number (by rw [hkeywords]; simp)
  rw [hcode] at hfind
  rw [keywordRange?, hraw, Option.bind_eq_bind, Option.bind_some, hfind, Option.bind_eq_bind,
    Option.bind_some, hstart, hbytes, ← hnumber]
  rfl

/-- Where the range of a closer is shown, the closer is the first one of its line. -/
lemma eq_of_keywordRange? {c : BlockEvent} {n : Nat}
    (hline : line ∈ (ofText text view).lines) (hc : c ∈ line.keywords kind)
    (hspelled : c.SpelledIn line.code)
    (h : keywordRange? text text.lines n kind.closer =
      some (eventRange (ofText text view) c)) :
    n = line.number ∧ ∃ m more, kind.closerPattern.occurrences line.code = m :: more ∧
      m.whole.start = c.column := by
  obtain ⟨hraw, hcode⟩ := getElem?_of_mem_lines hline
  have hnumber := line_eq_number hc
  obtain ⟨l, hl, h⟩ := Option.bind_eq_some_iff.mp h
  obtain ⟨m, hm, h⟩ := Option.bind_eq_some_iff.mp h
  have hspan := Option.some.inj h
  rw [← Pattern.head?_occurrences] at hm
  obtain ⟨more, hfound⟩ := head?_eq_some_iff.mp hm
  have hmem : m ∈ kind.closerPattern.occurrences (clean l) := by
    rw [BlockKind.closerPattern, hfound]
    exact mem_cons_self
  obtain ⟨a, w, b, hclean, hw, -, -, hwhole⟩ :=
    Pattern.exists_word_of_mem_occurrences kind.isIdentifier_closer hmem
  obtain ⟨lead, rest, rfl, hlead⟩ :=
    exists_word_of_clean hclean (isWord_of_sameName kind.isIdentifier_closer hw)
  obtain ⟨before, word, behind, hword, hcolumn, hsame⟩ := hspelled.exists_append
  have hname := isIdentifier_of_sameName c.isIdentifier_keyword hsame
  obtain ⟨lead', rest', hraw', hlead'⟩ :=
    exists_word_of_clean (hcode.symm.trans hword) (isWord_of_isIdentifier hname)
  rw [hwhole] at hspan
  have hsame : text.span n (byteLength lead) (byteLength w) =
      text.span line.number (byteLength lead') (byteLength word) := by
    rw [hlead, hlead', hcolumn, byteLength_of_sameName c.isIdentifier_keyword hsame, ← hnumber]
    exact hspan
  -- Equal ranges of pieces within lines are ranges of the same piece.
  rw [hraw'] at hraw
  obtain ⟨rfl, hstart⟩ := Text.eq_of_span_eq hl hraw hsame
  have hsameLine : line.raw = lead ++ (w ++ rest) := by
    rw [hraw']
    exact Option.some.inj (hraw.symm.trans hl)
  refine ⟨rfl, m, more, ?_, ?_⟩
  · rw [hcode, hsameLine]
    exact hfound
  · rw [hwhole]
    exact hlead.symm.trans (hstart.trans (hlead'.trans hcolumn))

/-! ## The cursor on a keyword -/

/-- The position is on a block keyword, at any of its letters or right behind it, and the keyword is
no system variable. -/
def OnKeyword (text : Text) (p : Position) (e : BlockEvent) : Prop :=
  ∃ place ∈ Place.at? text p, place.number = e.line ∧ e.column ≤ place.column ∧
    place.column ≤ e.column + e.keyword.length ∧
    (takeBytes e.column place.line).getLast? ≠ some '$'

instance (text : Text) (p : Position) (e : BlockEvent) : Decidable (OnKeyword text p e) :=
  inferInstanceAs (Decidable (∃ place ∈ Place.at? text p, _))

lemma ofKeyword?_eq_some {word : Text} (h : sameName word e.keyword.toList = true) :
    BlockKind.ofKeyword? word = some (e.kind, e.opens) := by
  have hkeywords : ∀ (kind : BlockKind) (opens : Bool),
      BlockKind.ofKeyword? (if opens then kind.opener else kind.closer).toList =
        some (kind, opens) := by
    intro kind opens
    cases kind <;> cases opens <;> decide
  rw [← hkeywords, BlockKind.ofKeyword?, BlockKind.ofKeyword?, beq_iff_eq.mp h]
  rfl

lemma kind_ne_text_of_mem_uses {word : Text} {lines : List Text} {f : Highlight}
    (h : f ∈ uses text lines word) : f.kind ≠ .text := by
  obtain ⟨entry, -, h⟩ := mem_flatMap.mp h
  obtain ⟨found, -, rfl⟩ := mem_map.mp h
  split <;> simp

/-- The word at a position on a keyword is the keyword. -/
lemma exists_word_of_onKeyword (hline : line ∈ (ofText text view).lines)
    (he : e ∈ line.keywords kind) (hspelled : e.SpelledIn line.code) (h : OnKeyword text p e) :
    ∃ place word, Place.at? text p = some place ∧ place.lines = text.lines ∧
      place.number = e.line ∧ place.inCode = true ∧ place.inString = false ∧
      place.word? = some word ∧ sameName word.text e.keyword.toList = true := by
  obtain ⟨place, hplace, hnumber, hle, hge, hdollar⟩ := h
  obtain ⟨hraw, hcode⟩ := getElem?_of_mem_lines hline
  obtain ⟨a, b, hplaceLine, -, rfl⟩ := Place.exists_of_at? hplace
  dsimp only at hnumber hle hge hdollar
  rw [hnumber, line_eq_number he, hraw, Option.some.injEq] at hplaceLine
  obtain ⟨before, word, behind, hclean, hcolumn, hsame, hbefore, hbehind⟩ :=
    hspelled.exists_whole he
  have hname := isIdentifier_of_sameName e.isIdentifier_keyword hsame
  obtain ⟨lead, rest, hwhole, hlead, hcodePart, hinside, haround⟩ :=
    exists_around_of_clean (hcode.symm.trans hclean) hname hbefore hbehind
  -- The word is ASCII, so every column in it falls between two of its letters.
  have hle' : byteLength a - e.column ≤ byteLength word := by
    rw [byteLength_of_sameName e.isIdentifier_keyword hsame, String.length_toList]
    omega
  obtain ⟨u, v, rfl, hu⟩ :=
    exists_append_of_isAscii (isAscii_of_sameName e.isIdentifier_keyword hsame) hle'
  have hcursor : byteLength a = byteLength (lead ++ u) := by
    rw [byteLength_append]
    omega
  have htake : takeBytes e.column (a ++ b) = lead := by
    rw [← hplaceLine, hwhole, ← hcolumn, ← hlead, takeBytes_append]
  rw [htake] at hdollar
  obtain ⟨found, hfound, htext⟩ := CursorWord.exists_at?_of_name haround hdollar hname
  refine ⟨_, found, hplace, rfl, hnumber, ?_, ?_, ?_, htext ▸ hsame⟩
  · simp only [Place.inCode, ← hplaceLine, hcursor, decide_eq_true_eq]
    refine Nat.le_trans ?_ hcodePart
    rw [byteLength_append, byteLength_append, byteLength_append]
    omega
  · rw [Place.inString, ← hplaceLine, hwhole, hcursor]
    exact inString_of_name hinside hname rest
  · rw [Place.word?, ← hplaceLine, hwhole, hcursor]
    exact hfound

/-- **On a keyword two texts are shown** if lines for them are found and the keywords are in
them. -/
lemma highlights_eq_pair_iff (hline : line ∈ (ofText text view).lines)
    (he : e ∈ line.keywords kind) (hspelled : e.SpelledIn line.code) (h : OnKeyword text p e)
    {first last : Range} :
    highlights text p = [⟨first, .text⟩, ⟨last, .text⟩] ↔
      ∃ lines, pairLines? text.lines e.line e.kind e.opens = some lines ∧
        keywordRange? text text.lines lines.1 e.kind.opener = some first ∧
        keywordRange? text text.lines lines.2 e.kind.closer = some last := by
  obtain ⟨place, word, hplace, hlines, hnumber, hcode, hstring, hword, hsame⟩ :=
    exists_word_of_onKeyword hline he hspelled h
  have hpair : highlights text p =
      (pair? text place word.text).getD (uses text place.lines word.text) := by
    rw [highlights, hplace]
    dsimp only
    rw [hcode, hstring, hword]
    rfl
  have huses : uses text text.lines word.text ≠ [⟨first, .text⟩, ⟨last, .text⟩] := by
    intro heq
    exact kind_ne_text_of_mem_uses (heq ▸ mem_cons_self) rfl
  rw [hlines] at hpair
  rw [hpair, Option.getD_eq_iff, or_iff_left fun h => huses h.2, pair?, ofKeyword?_eq_some hsame,
    hlines, hnumber]
  simp [Option.bind_eq_some_iff]

/-! ## The lines of the two keywords -/

lemma pairLines?_opener (hlines : (ofText text view).lines = above ++ line :: below)
    (hopener : kind.openerPattern.isIn line.code = true) :
    pairLines? text.lines line.number kind true =
      (closerBelow 0 (below.map (firstMark kind))).map fun k =>
        (line.number, line.number + 1 + k) := by
  obtain ⟨hraw, hcode⟩ :=
    getElem?_of_mem_lines (show line ∈ (ofText text view).lines by simp [hlines])
  rw [hcode] at hopener
  rw [pairLines?, hraw, Option.bind_eq_bind, Option.bind_some]
  rw [if_pos rfl, if_pos hopener, partnerIn_below hlines]
  cases closerBelow 0 (below.map (firstMark kind)) <;> rfl

lemma pairLines?_closer (hlines : (ofText text view).lines = above ++ line :: below)
    (hcloser : kind.closerPattern.isIn line.code = true) :
    pairLines? text.lines line.number kind false =
      (closerBelow 0 (above.reverse.map (lastMark kind))).map fun k =>
        (line.number - 1 - k, line.number) := by
  obtain ⟨hraw, hcode⟩ :=
    getElem?_of_mem_lines (show line ∈ (ofText text view).lines by simp [hlines])
  rw [hcode] at hcloser
  rw [pairLines?, hraw, Option.bind_eq_bind, Option.bind_some]
  rw [if_neg (by simp), if_pos hcloser, partnerIn_above hlines]
  cases closerBelow 0 (above.reverse.map (lastMark kind)) <;> rfl

end Highlight

end Lines

/-! ## Keywords spread out over lines -/

/-- The keywords of the kind of a block are spread out over lines: the closer stands below the
opener and in front of the others in its line, and no two of them share a line in between. -/
@[mk_iff] structure SpreadOut (events : List BlockEvent) (o c : BlockEvent) : Prop where
  below : o.line < c.line
  alone : ∀ e ∈ events, ∀ e' ∈ events, e.kind = o.kind → e'.kind = o.kind → o.line < e.line →
    e.line < c.line → e'.line = e.line → e' = e
  first : ∀ e ∈ events, e.kind = o.kind → e.line = c.line → c.column ≤ e.column

instance (events : List BlockEvent) (o c : BlockEvent) : Decidable (SpreadOut events o c) :=
  decidable_of_iff _ (spreadOut_iff events o c).symm

section Document

variable {text : Text} {view : WorkspaceView} {o c : BlockEvent}

/-- A line has at most one keyword of a kind if all of them are the same. -/
lemma length_keywords_le_one_iff {line : SourceLine} {kind : BlockKind} :
    (line.keywords kind).length ≤ 1 ↔
      ∀ e ∈ line.keywords kind, ∀ e' ∈ line.keywords kind, e' = e := by
  have hcolumns := pairwise_ofKind line.code line.number kind
  rw [← keywords] at hcolumns
  cases hkeywords : line.keywords kind with
  | nil => simp
  | cons e more =>
    cases more with
    | nil => simp
    | cons e' more =>
      rw [hkeywords] at hcolumns
      have hlt : e.column < e'.column :=
        (pairwise_cons.mp hcolumns).1 e' mem_cons_self
      refine ⟨fun h => by simp at h, fun h => ?_⟩
      rw [h e mem_cons_self e' (by simp)] at hlt
      exact absurd hlt (Nat.lt_irrefl _)

/-- What it is to be spread out, line by line. -/
lemma Finding.Apart.spreadOut_iff (s : Apart (ofText text view) o c) :
    SpreadOut (blockEvents (ofText text view)) o c ↔
      s.front = [] ∧ ∀ l ∈ s.body, (l.keywords o.kind).length ≤ 1 := by
  have hcolumns := pairwise_ofKind s.last.code s.last.number o.kind
  rw [← keywords, s.last_keywords] at hcolumns
  constructor
  · rintro ⟨-, halone, hfirst⟩
    constructor
    -- A keyword in front of the closer would be the first of its line.
    · rw [eq_nil_iff_forall_not_mem]
      intro e he
      have hmem : e ∈ s.last.keywords o.kind := by simp [s.last_keywords, he]
      obtain ⟨hevent, hkind⟩ := mem_blockEvents_iff.mpr ⟨s.last, s.last_mem, hmem⟩
      have hle := hfirst e hevent hkind ((line_eq_number hmem).trans s.closer_line.symm)
      exact absurd ((pairwise_append.mp hcolumns).2.2 e he c mem_cons_self)
        (Nat.not_lt.mpr hle)
    · intro l hl
      obtain ⟨hl, hlt, hgt⟩ := s.mem_body_iff.mp hl
      rw [length_keywords_le_one_iff]
      intro e he e' he'
      obtain ⟨hevent, hkind⟩ := mem_blockEvents_iff.mpr ⟨l, hl, he⟩
      obtain ⟨hevent', hkind'⟩ := mem_blockEvents_iff.mpr ⟨l, hl, he'⟩
      have hline := line_eq_number he
      have hline' := line_eq_number he'
      exact halone e hevent e' hevent' hkind hkind' (by omega) (by omega) (by omega)
  · rintro ⟨hfront, hsingle⟩
    refine ⟨?_, fun e he e' he' hkind hkind' hlt hgt hsame => ?_, fun e he hkind hsame => ?_⟩
    · rw [s.opener_line, s.closer_line, s.number_eq]
      omega
    · obtain ⟨l, hl, he⟩ := mem_blockEvents_iff.mp ⟨he, hkind⟩
      obtain ⟨l', hl', he'⟩ := mem_blockEvents_iff.mp ⟨he', hkind'⟩
      have hline := line_eq_number he
      have hline' := line_eq_number he'
      obtain rfl := eq_of_number_eq hl hl' (by omega)
      have hbody := s.mem_body_iff.mpr ⟨hl, by omega, by omega⟩
      exact length_keywords_le_one_iff.mp (hsingle l hbody) e he e' he'
    · obtain ⟨l, hl, he⟩ := mem_blockEvents_iff.mp ⟨he, hkind⟩
      have hline := line_eq_number he
      obtain rfl := eq_of_number_eq hl s.last_mem (by rw [← hline, hsame, s.closer_line])
      rw [hfront, nil_append] at hcolumns
      rw [s.last_keywords, hfront, nil_append] at he
      rcases mem_cons.mp he with rfl | he
      · exact Nat.le_refl _
      · exact Nat.le_of_lt ((pairwise_cons.mp hcolumns).1 e he)

/-! ## The two searches -/

section Search

variable {kind : BlockKind} {above body behind : List SourceLine} {line last : SourceLine}
  {w w' : List BlockEvent}

/-- A search that stops at a line has come down to depth zero in the lines before. -/
lemma closerBelow_eq_length_iff {f : SourceLine → ScopeMark} :
    closerBelow 0 ((body ++ last :: behind).map f) = some body.length ↔
      depthAfter 0 (body.map f) = some 0 ∧ f last = .closer := by
  rw [closerBelow_eq_some_iff, map_append, map_cons]
  constructor
  · rintro ⟨inner, below, heq, hinner, hlength⟩
    obtain ⟨rfl, hrest⟩ := List.append_inj heq (by simp [hlength])
    exact ⟨hinner, (List.cons.inj hrest).1⟩
  · rintro ⟨hbody, hlast⟩
    exact ⟨body.map f, behind.map f, by rw [hlast], hbody, by simp⟩

lemma firstMark_of_cons (h : last.keywords kind = c :: w') (hcloses : c.opens = false) :
    last.firstMark kind = .closer := by
  rw [firstMark_eq, h, map_cons, mark_of_closes hcloses]
  rfl

/-- A closer that is the first one of its line stands in front of all keywords of its kind, if the
line does not open a block. -/
lemma eq_nil_of_firstMark (h : last.keywords kind = w ++ c :: w')
    (hmark : last.firstMark kind = .closer) {m : Match} {more : List Match}
    (hfound : kind.closerPattern.occurrences last.code = m :: more)
    (hstart : m.whole.start = c.column) : w = [] := by
  have hopener : kind.openerPattern.find? last.code = none := by
    rw [firstMark, Highlight.lineMark] at hmark
    split at hmark
    case isTrue => cases hmark
    case isFalse hopener => simpa [Pattern.isIn] using hopener
  have hcolumns := pairwise_ofKind last.code last.number kind
  rw [keywords] at h
  rw [h] at hcolumns
  rw [ofKind_of_find?_eq_none hopener, closersOf, hfound, map_cons] at h
  cases w with
  | nil => rfl
  | cons e w =>
    obtain ⟨rfl, -⟩ := List.cons.inj h
    have hlt : m.whole.start < c.column := (pairwise_cons.mp hcolumns).1 c (by simp)
    omega

/-- **The search downward finds the closer exactly if no line on the way has two keywords.** -/
lemma closerBelow_firstMark_iff (h : last.keywords kind = c :: w') (hcloses : c.opens = false)
    (hdepth : depthAfter 0 ((body.flatMap (·.keywords kind)).map mark) = some 0) :
    closerBelow 0 ((body ++ last :: behind).map (firstMark kind)) =
      some body.length ↔ ∀ l ∈ body, (l.keywords kind).length ≤ 1 := by
  rw [closerBelow_eq_length_iff, and_iff_left (firstMark_of_cons h hcloses)]
  constructor
  · intro hmarks
    exact (depthAfter_firstMarks hmarks hdepth).2 rfl
  · intro hsingle
    rw [depthAfter_map_firstMark hsingle, hdepth]

/-- The search upward finds the opener if no line on the way has two keywords. -/
lemma closerBelow_lastMark (h : line.keywords kind = [o]) (hopens : o.opens = true)
    (hdepth : depthAfter 0 ((body.flatMap (·.keywords kind)).map mark) = some 0)
    (hsingle : ∀ l ∈ body, (l.keywords kind).length ≤ 1) :
    closerBelow 0 ((above ++ line :: body).reverse.map (lastMark kind)) = some body.length := by
  have hturned : body.reverse.map (lastMark kind) =
      (body.map (firstMark kind)).reverse.map turned := by
    rw [← map_reverse, map_map]
    refine map_congr_left fun l hl => ?_
    exact (marks_of_length_le_one (hsingle l (mem_reverse.mp hl))).1
  have hmark : line.lastMark kind = .closer := by
    rw [lastMark_eq, h, map_singleton, mark_of_opens hopens]
    rfl
  rw [← depthAfter_map_firstMark hsingle] at hdepth
  have hreverse : (above ++ line :: body).reverse = body.reverse ++ line :: above.reverse := by simp
  have hlength : body.length = body.reverse.length := length_reverse.symm
  rw [hreverse, hlength, closerBelow_eq_length_iff, hturned]
  exact ⟨depthAfter_turned hdepth, hmark⟩

lemma isIn_openerPattern_of_mem (h : o ∈ line.keywords kind) (hopens : o.opens = true) :
    kind.openerPattern.isIn line.code = true := by
  by_contra hopener
  have hfind : kind.openerPattern.find? line.code = none := by simpa [Pattern.isIn] using hopener
  rw [keywords, ofKind_of_find?_eq_none hfind] at h
  rw [opens_of_mem_closersOf h] at hopens
  cases hopens

lemma isIn_closerPattern_of_cons (h : last.keywords kind = c :: w') (hcloses : c.opens = false) :
    kind.closerPattern.isIn last.code = true := by
  have hmark := firstMark_of_cons h hcloses
  rw [firstMark, Highlight.lineMark] at hmark
  split_ifs at hmark with hopener hcloser
  exact hcloser

end Search

/-! ## Keywords of a pair -/

open Highlight

/-- The keyword of an event is spelled in ASCII. -/
def Finding.IsSpelled (ctx : Context) (e : BlockEvent) : Prop :=
  ∀ line ∈ ctx.lines, line.number = e.line → e.SpelledIn line.code

instance (ctx : Context) (e : BlockEvent) : Decidable (IsSpelled ctx e) :=
  inferInstanceAs (Decidable (∀ line ∈ ctx.lines, _))

/-- The highlights of an opener and a closer. -/
def pairHighlights (ctx : Context) (o c : BlockEvent) : List Highlight :=
  [⟨eventRange ctx o, .text⟩, ⟨eventRange ctx c, .text⟩]

/-- On an opener the highlights are the opener and what the search downward finds. -/
lemma highlights_opener_iff_closerBelow {above below : List SourceLine} {line : SourceLine}
    {more : List BlockEvent} {r : Range}
    (hlines : (ofText text view).lines = above ++ line :: below)
    (hkeywords : line.keywords o.kind = o :: more) (hopens : o.opens = true)
    (hspelled : o.SpelledIn line.code) (hp : OnKeyword text p o) :
    highlights text p = [⟨eventRange (ofText text view) o, .text⟩, ⟨r, .text⟩] ↔
      ∃ k, closerBelow 0 (below.map (firstMark o.kind)) = some k ∧
        keywordRange? text text.lines (line.number + 1 + k) o.kind.closer = some r := by
  have hline : line ∈ (ofText text view).lines := by simp [hlines]
  have ho : o ∈ line.keywords o.kind := by simp [hkeywords]
  have hrange := keywordRange?_eq_some hline hkeywords hspelled
  rw [keyword, if_pos hopens] at hrange
  rw [highlights_eq_pair_iff hline ho hspelled hp, hopens, line_eq_number ho,
    pairLines?_opener hlines (isIn_openerPattern_of_mem ho hopens)]
  constructor
  · rintro ⟨lines, hfound, -, hlast⟩
    obtain ⟨k, hk, rfl⟩ := Option.map_eq_some_iff.mp hfound
    exact ⟨k, hk, hlast⟩
  · rintro ⟨k, hk, hlast⟩
    exact ⟨_, by rw [hk]; rfl, hrange, hlast⟩

namespace Finding.Apart

variable {p : Position}

/-- A closer with no keyword of its kind in front of it, and the lines before it. -/
lemma of_front_eq_nil {ctx : Context} (s : Apart ctx o c) (h : s.front = []) :
    s.last.keywords o.kind = c :: s.rest ∧
      depthAfter 0 ((s.body.flatMap (·.keywords o.kind)).map mark) = some 0 := by
  have hlast := s.last_keywords
  have hdepth := s.depth_eq
  rw [h] at hlast hdepth
  rw [append_nil] at hdepth
  exact ⟨hlast, hdepth⟩

/-- The range that is shown for a closer with no keyword of its kind in front of it. -/
lemma keywordRange?_closer (s : Apart (ofText text view) o c) (h : s.front = [])
    (hc : IsSpelled (ofText text view) c) :
    keywordRange? text text.lines s.last.number o.kind.closer =
      some (eventRange (ofText text view) c) := by
  have hrange := keywordRange?_eq_some s.last_mem (s.of_front_eq_nil h).1
    (hc s.last s.last_mem s.closer_line.symm)
  rwa [keyword, if_neg (by simp [s.closes]), s.kind_eq] at hrange

/-- On the opener of a pair in different lines the highlights are the pair if and only if the
keywords are spread out. -/
lemma highlights_opener_iff (s : Apart (ofText text view) o c)
    (ho : IsSpelled (ofText text view) o) (hc : IsSpelled (ofText text view) c)
    (hp : OnKeyword text p o) :
    highlights text p = pairHighlights (ofText text view) o c ↔
      SpreadOut (blockEvents (ofText text view)) o c := by
  have hospelled := ho s.line s.line_mem s.opener_line.symm
  have hcspelled := hc s.last s.last_mem s.closer_line.symm
  have hnumber := s.number_eq
  rw [pairHighlights,
    highlights_opener_iff_closerBelow s.lines_eq s.line_keywords s.opens hospelled hp,
    s.spreadOut_iff]
  constructor
  · rintro ⟨k, hk, hrange⟩
    obtain ⟨hline, m, more, hfound, hstart⟩ :=
      eq_of_keywordRange? s.last_mem s.closer_mem hcspelled hrange
    obtain rfl : k = s.body.length := by omega
    have hfront := eq_nil_of_firstMark s.last_keywords (closerBelow_eq_length_iff.mp hk).2 hfound
      hstart
    obtain ⟨hlast, hdepth⟩ := s.of_front_eq_nil hfront
    exact ⟨hfront, (closerBelow_firstMark_iff hlast s.closes hdepth).mp hk⟩
  · rintro ⟨hfront, hsingle⟩
    obtain ⟨hlast, hdepth⟩ := s.of_front_eq_nil hfront
    refine ⟨s.body.length, (closerBelow_firstMark_iff hlast s.closes hdepth).mpr hsingle, ?_⟩
    rw [← hnumber]
    exact s.keywordRange?_closer hfront hc

/-- On the closer the highlights are the pair if the keywords are spread out. -/
lemma highlights_closer (s : Apart (ofText text view) o c)
    (ho : IsSpelled (ofText text view) o) (hc : IsSpelled (ofText text view) c)
    (hp : OnKeyword text p c) (hspread : SpreadOut (blockEvents (ofText text view)) o c) :
    highlights text p = pairHighlights (ofText text view) o c := by
  obtain ⟨hfront, hsingle⟩ := s.spreadOut_iff.mp hspread
  obtain ⟨hlast, hdepth⟩ := s.of_front_eq_nil hfront
  have hfirst := keywordRange?_eq_some s.line_mem s.line_keywords
    (ho s.line s.line_mem s.opener_line.symm)
  rw [keyword, if_pos s.opens] at hfirst
  have hnumber : s.last.number - 1 - s.body.length = s.line.number := by
    rw [s.number_eq]
    omega
  rw [pairHighlights, highlights_eq_pair_iff s.last_mem s.closer_mem
    (hc s.last s.last_mem s.closer_line.symm) hp, s.closes, s.kind_eq, s.closer_line,
    pairLines?_closer s.lines_eq' (isIn_closerPattern_of_cons hlast s.closes),
    closerBelow_lastMark s.line_keywords s.opens hdepth hsingle]
  refine ⟨(s.line.number, s.last.number), ?_, hfirst, s.keywordRange?_closer hfront hc⟩
  rw [Option.map_some, hnumber]

end Finding.Apart

/-- **Block highlights and block pairs.**  In a document whose block keywords are well nested every
keyword belongs to a pair of the check of blocks.  On the opener of a pair the highlights are the
pair if and only if the keywords of its kind are spread out over lines, and if they are, the
highlights on the closer are the same two. -/
theorem highlights_blockPair (hnested : WellNested (blockEvents (Context.ofText text view))) :
    (∀ e ∈ blockEvents (Context.ofText text view),
      ∃ pair ∈ blockPairs (Context.ofText text view), e = pair.1 ∨ e = pair.2) ∧
    ∀ o c, (o, c) ∈ blockPairs (Context.ofText text view) →
      IsSpelled (Context.ofText text view) o → IsSpelled (Context.ofText text view) c →
      (∀ p, OnKeyword text p o →
        (highlights text p = pairHighlights (Context.ofText text view) o c ↔
          SpreadOut (blockEvents (Context.ofText text view)) o c)) ∧
      ∀ p, OnKeyword text p c → SpreadOut (blockEvents (Context.ofText text view)) o c →
        highlights text p = pairHighlights (Context.ofText text view) o c := by
  refine ⟨fun e he => exists_mem_pairsFrom hnested he, fun o c hpair ho hc => ?_⟩
  rcases exists_lines_of_mem_blockPairs hnested hpair with ⟨line, hline, more, hkeywords⟩ | ⟨⟨s⟩⟩
  · -- Both in one line: the search begins below it.
    obtain ⟨hopens, -⟩ := exists_append_of_mem_pairsFrom hnested hpair
    obtain ⟨above, below, hlines⟩ := append_of_mem hline
    have hcmem : c ∈ line.keywords o.kind := by simp [hkeywords]
    have holine : o.line = line.number := SourceLine.line_eq_number (by rw [hkeywords]; simp)
    have hcline : c.line = line.number := SourceLine.line_eq_number hcmem
    have hnot : ¬SpreadOut (blockEvents (Context.ofText text view)) o c := fun h => by
      have hlt := h.below
      omega
    refine ⟨fun p hp => ⟨fun hshown => ?_, fun h => absurd h hnot⟩, fun p _ h => absurd h hnot⟩
    obtain ⟨k, -, hrange⟩ := (highlights_opener_iff_closerBelow hlines hkeywords hopens
      (ho line hline holine.symm) hp).mp hshown
    have hnumber := (eq_of_keywordRange? hline hcmem (hc line hline hcline.symm) hrange).1
    omega
  · exact ⟨fun p hp => s.highlights_opener_iff ho hc hp,
      fun p hp hspread => s.highlights_closer ho hc hp hspread⟩

/-- A block in a block of another kind in a block of the first kind, each keyword in a line of its
own: on both keywords of the outer block the highlights are the two. -/
theorem highlights_blockPair_nested :
    let text : Text := "IF a THEN\nWHILE b\nIF c THEN\nENDIF\nENDWHILE\n endif\n".toList
    let ctx := Context.ofText text {}
    let o : BlockEvent := ⟨.ifBlock, true, 0, 0⟩
    let c : BlockEvent := ⟨.ifBlock, false, 5, 1⟩
    WellNested (blockEvents ctx) ∧ (o, c) ∈ blockPairs ctx ∧ SpreadOut (blockEvents ctx) o c ∧
      highlights text ⟨0, 1⟩ = pairHighlights ctx o c ∧
      highlights text ⟨5, 6⟩ = pairHighlights ctx o c := by
  intro text ctx o c
  have hevents : blockEvents ctx = [o, ⟨.whileBlock, true, 1, 0⟩, ⟨.ifBlock, true, 2, 0⟩,
      ⟨.ifBlock, false, 3, 0⟩, ⟨.whileBlock, false, 4, 0⟩, c] := by decide +kernel
  have hnested : WellNested (blockEvents ctx) :=
    balanceFrom_nil_eq_nil_iff.mp (show balance ctx = [] by decide +kernel)
  have hpair : (o, c) ∈ blockPairs ctx := by
    rw [blockPairs, hevents]
    decide
  have hspread : SpreadOut (blockEvents ctx) o c := by
    rw [hevents]
    decide
  obtain ⟨hopener, hcloser⟩ :=
    (highlights_blockPair hnested).2 o c hpair (by decide +kernel) (by decide +kernel)
  exact ⟨hnested, hpair, hspread, (hopener ⟨0, 1⟩ (by decide +kernel)).mpr hspread,
    hcloser ⟨5, 6⟩ (by decide +kernel) hspread⟩

/-- A block in one line inside a block: the keywords pair up, but on the inner opener the highlights
show the outer closer, and on the outer opener they show uses of the word. -/
theorem highlights_blockPair_oneLine :
    let text : Text := "IF TRUE THEN\nIF TRUE THEN HALT ENDIF\nENDIF\n".toList
    let ctx := Context.ofText text {}
    let outer : BlockEvent × BlockEvent := (⟨.ifBlock, true, 0, 0⟩, ⟨.ifBlock, false, 2, 0⟩)
    let inner : BlockEvent × BlockEvent := (⟨.ifBlock, true, 1, 0⟩, ⟨.ifBlock, false, 1, 18⟩)
    balance ctx = [] ∧ blockPairs ctx = [inner, outer] ∧
      highlights text ⟨1, 0⟩ = pairHighlights ctx inner.1 outer.2 ∧
      highlights text ⟨0, 0⟩ =
        [⟨eventRange ctx outer.1, .read⟩, ⟨eventRange ctx inner.1, .read⟩] := by
  decide +kernel

end Document

end KrlWorkbench
