import KrlWorkbench.Proofs.Code.KindKeywords
import KrlWorkbench.Proofs.Finding.BlockPairs
import KrlWorkbench.Proofs.Finding.DistinctPlaces
import Mathlib.Data.List.Nodup

/-!
# Pairs of block keywords, line by line

The check of blocks reads all keywords of a document; the searches for a partner go from line to
line and know one kind only.  This module puts the pairs of the former into the terms of the latter.
The events of a kind are found line by line (`filter_blockEvents`).  Where a document is well
nested, the closer of an opener is the next keyword of the kind in the line, or it stands in a later
line, and then the keywords of the kind in between come back to depth zero (`Apart`,
`exists_lines_of_mem_blockPairs`).
-/

namespace KrlWorkbench

open List BlockEvent Text

variable {e : BlockEvent} {line : SourceLine}

lemma exists_of_flatMap_eq_append_cons {α β : Type} {f : α → List β} {l : List α} {u v : List β}
    {x : β} (h : l.flatMap f = u ++ x :: v) :
    ∃ before a after w w', l = before ++ a :: after ∧ f a = w ++ x :: w' ∧
      u = before.flatMap f ++ w ∧ v = w' ++ after.flatMap f := by
  induction l generalizing u with
  | nil => simp at h
  | cons a l ih =>
    rcases append_eq_append_iff.mp h with ⟨u', rfl, hrest⟩ | ⟨w', hfa, hrest⟩
    · obtain ⟨before, b, after, w, w', rfl, hb, rfl, rfl⟩ := ih hrest
      exact ⟨a :: before, b, after, w, w', rfl, hb, by simp, rfl⟩
    · cases w' with
      | nil =>
        obtain ⟨before, b, after, w, w', rfl, hb, hu, rfl⟩ := ih (u := []) hrest.symm
        refine ⟨a :: before, b, after, w, w', rfl, hb, ?_, rfl⟩
        rw [flatMap_cons, append_assoc, ← hu, hfa, append_nil, append_nil]
      | cons x' w' =>
        obtain ⟨rfl, rfl⟩ := List.cons.inj hrest
        exact ⟨[], a, l, u, w', rfl, hfa, rfl, rfl⟩

/-- The keywords of a kind in a line. -/
def SourceLine.keywords (line : SourceLine) (kind : BlockKind) : List BlockEvent :=
  ofKind line.code line.number kind

namespace SourceLine

variable {line : SourceLine} {kind : BlockKind}

/-- An opener is the first keyword of its kind in its line. -/
lemma keywords_eq_cons_of_opens {w w' : List BlockEvent} {o : BlockEvent}
    (h : line.keywords kind = w ++ o :: w') (hopens : o.opens = true) :
    w = [] ∧ ∀ e ∈ w', e.opens = false := by
  have hfalse : ∀ {u u' : List BlockEvent},
      closersOf line.code line.number kind = u ++ o :: u' → False := by
    intro u u' hclosers
    have hmem : o ∈ closersOf line.code line.number kind := by rw [hclosers]; simp
    rw [opens_of_mem_closersOf hmem] at hopens
    cases hopens
  rw [keywords] at h
  cases hfind : kind.openerPattern.find? line.code with
  | none => exact (hfalse ((ofKind_of_find?_eq_none hfind).symm.trans h)).elim
  | some m =>
    rw [ofKind_of_find? hfind] at h
    cases w with
    | nil =>
      obtain ⟨-, rfl⟩ := List.cons.inj h
      exact ⟨rfl, fun e he => opens_of_mem_closersOf he⟩
    | cons e w => exact (hfalse (List.cons.inj h).2).elim

/-- The keywords of a line are an opener, if it has one, and closers. -/
lemma map_mark_keywords (line : SourceLine) (kind : BlockKind) :
    (line.keywords kind).map mark =
      (if kind.openerPattern.isIn line.code then [.opener] else []) ++
        List.replicate (kind.closerPattern.occurrences line.code).length .closer := by
  have hclosers : (closersOf line.code line.number kind).map mark =
      List.replicate (kind.closerPattern.occurrences line.code).length ScopeMark.closer := by
    rw [closersOf, map_map, ← map_const']
    rfl
  rw [keywords]
  cases hfind : kind.openerPattern.find? line.code with
  | none =>
    rw [ofKind_of_find?_eq_none hfind, hclosers, if_neg (by simp [Pattern.isIn, hfind]), nil_append]
  | some m =>
    rw [ofKind_of_find? hfind, if_pos (by simp [Pattern.isIn, hfind]), map_cons,
      hclosers, mark_of_opens rfl, singleton_append]

/-- The depth behind a line: its opener comes before its closers. -/
lemma depthAfter_keywords (d : Nat) :
    ScopeMark.depthAfter d ((line.keywords kind).map mark) =
      ScopeMark.depthAfter (if kind.openerPattern.isIn line.code then d + 1 else d)
        (List.replicate (kind.closerPattern.occurrences line.code).length .closer) := by
  rw [map_mark_keywords]
  split
  · rw [singleton_append, ScopeMark.depthAfter_opener]
  · rw [nil_append]

lemma line_eq_number (h : e ∈ line.keywords kind) : e.line = line.number :=
  (of_mem_ofKind h).2

end SourceLine

namespace Context

variable {text : Text} {view : WorkspaceView}

lemma nodup_numbers (text : Text) (view : WorkspaceView) :
    ((ofText text view).lines.map SourceLine.number).Nodup :=
  pairwise_map.mpr ((Finding.lines_ofText_pairwise text view).imp Nat.ne_of_lt)

lemma eq_of_number_eq {line' : SourceLine} (hline : line ∈ (ofText text view).lines)
    (hline' : line' ∈ (ofText text view).lines) (h : line.number = line'.number) : line = line' :=
  inj_on_of_nodup_map (nodup_numbers text view) hline hline' h

lemma number_eq_length {above below : List SourceLine}
    (h : (ofText text view).lines = above ++ line :: below) : line.number = above.length := by
  have hline : (ofText text view).lines[above.length]? = some line := by simp [h]
  simp only [ofText, getElem?_map, getElem?_zipIdx, Option.map_map, Option.map_eq_some_iff] at hline
  obtain ⟨raw, -, rfl⟩ := hline
  simp

end Context

namespace Finding

open ScopeMark

variable {ctx : Context} {kind : BlockKind}

lemma filter_blockEvents (ctx : Context) (kind : BlockKind) :
    (blockEvents ctx).filter (fun e => e.kind = kind) = ctx.lines.flatMap (·.keywords kind) := by
  rw [blockEvents, filter_flatMap]
  exact flatMap_congr fun line _ => filter_ofLine line.code line.number kind

lemma mem_blockEvents_iff :
    e ∈ blockEvents ctx ∧ e.kind = kind ↔ ∃ line ∈ ctx.lines, e ∈ line.keywords kind := by
  rw [← mem_flatMap, ← filter_blockEvents, mem_filter, decide_eq_true_eq]

lemma mem_blockEvents_of_mem_keywords (hline : line ∈ ctx.lines) (h : e ∈ line.keywords kind) :
    e ∈ blockEvents ctx :=
  (mem_blockEvents_iff.mpr ⟨line, hline, h⟩).1

lemma start_line_eventRange {text : Text} {view : WorkspaceView}
    (h : e ∈ blockEvents (Context.ofText text view)) :
    (eventRange (Context.ofText text view) e).start.line = e.line := by
  obtain ⟨line, hline, he⟩ := mem_flatMap.mp h
  obtain ⟨hnumber, hle⟩ := column_add_length_le he
  obtain ⟨hraw, hcode⟩ := Context.getElem?_of_mem_lines hline
  have hlength : e.column + e.keyword.length ≤ byteLength line.raw := by
    obtain ⟨comment, hraw⟩ := Code.codePart_isPrefix line.raw
    rw [hcode, Code.byteLength_clean] at hle
    rw [← hraw, byteLength_append]
    exact Nat.le_add_right_of_le hle
  rw [← hnumber] at hraw
  show (text.span e.line e.column e.keyword.length).start.line = e.line
  rw [span_eq hraw hlength]

/-! ## Pairs in different lines -/

/-- A pair whose closer stands in a line below its opener: the lines around and between the two, and
the keywords of the kind around the closer.  The opener is the only keyword of the kind in its line,
and the keywords between the two are nested. -/
structure Apart (ctx : Context) (o c : BlockEvent) where
  above : List SourceLine
  line : SourceLine
  body : List SourceLine
  last : SourceLine
  behind : List SourceLine
  /-- The keywords in front of the closer in its line. -/
  front : List BlockEvent
  rest : List BlockEvent
  lines_eq : ctx.lines = above ++ line :: (body ++ last :: behind)
  line_keywords : line.keywords o.kind = [o]
  last_keywords : last.keywords o.kind = front ++ c :: rest
  opens : o.opens = true
  closes : c.opens = false
  kind_eq : c.kind = o.kind
  depth_eq :
    depthAfter 0 ((body.flatMap (·.keywords o.kind) ++ front).map mark) = some 0

namespace Apart

variable {o c : BlockEvent} (s : Apart ctx o c)

lemma line_mem : s.line ∈ ctx.lines := by
  simp [s.lines_eq]

lemma last_mem : s.last ∈ ctx.lines := by
  simp [s.lines_eq]

lemma opener_mem : o ∈ s.line.keywords o.kind := by
  simp [s.line_keywords]

lemma closer_mem : c ∈ s.last.keywords o.kind := by
  simp [s.last_keywords]

lemma opener_line : o.line = s.line.number :=
  SourceLine.line_eq_number s.opener_mem

lemma closer_line : c.line = s.last.number :=
  SourceLine.line_eq_number s.closer_mem

lemma lines_eq' :
    ctx.lines = (s.above ++ s.line :: s.body) ++ s.last :: s.behind := by
  rw [s.lines_eq, append_assoc, cons_append]

section Document

variable {text : Text} {view : WorkspaceView}

lemma number_eq (s : Apart (Context.ofText text view) o c) :
    s.last.number = s.line.number + 1 + s.body.length := by
  rw [Context.number_eq_length s.lines_eq', Context.number_eq_length s.lines_eq,
    length_append, length_cons]
  omega

lemma mem_body_iff (s : Apart (Context.ofText text view) o c) {l : SourceLine} :
    l ∈ s.body ↔ l ∈ (Context.ofText text view).lines ∧ o.line < l.number ∧ l.number < c.line := by
  have hsorted := lines_ofText_pairwise text view
  rw [s.lines_eq] at hsorted
  simp only [pairwise_append, pairwise_cons, mem_append, mem_cons] at hsorted
  obtain ⟨-, ⟨hline, -, ⟨hlast, -⟩, hbody⟩, habove⟩ := hsorted
  rw [s.opener_line, s.closer_line]
  constructor
  · intro hl
    exact ⟨by simp [s.lines_eq, hl], hline l (.inl hl), hbody l hl s.last (.inl rfl)⟩
  · rintro ⟨hl, hlt, hgt⟩
    rw [s.lines_eq] at hl
    simp only [mem_append, mem_cons] at hl
    rcases hl with hl | rfl | hl | rfl | hl
    · exact absurd (habove l hl s.line (.inl rfl)) (Nat.lt_asymm hlt)
    · exact absurd hlt (Nat.lt_irrefl _)
    · exact hl
    · exact absurd hgt (Nat.lt_irrefl _)
    · exact absurd (hlast l hl) (Nat.lt_asymm hgt)

end Document

end Apart

/-- **The lines of a pair.**  The closer is the next keyword of the kind in the line of its opener,
or it stands in a later line. -/
lemma exists_lines_of_mem_blockPairs (h : WellNested (blockEvents ctx)) {o c : BlockEvent}
    (hpair : (o, c) ∈ blockPairs ctx) :
    (∃ line ∈ ctx.lines, ∃ more, line.keywords o.kind = o :: c :: more) ∨
      Nonempty (Apart ctx o c) := by
  obtain ⟨hopens, hcloses, hkind, before, inner, after, hevents, hinner⟩ :=
    exists_append_of_mem_pairsFrom h hpair
  have hdepth : depthAfter 0 (kindMarks o.kind inner) = some 0 := depthAfter_kindMarks hinner 0
  rw [kindMarks] at hdepth
  have hall := filter_blockEvents ctx o.kind
  rw [hevents, filter_append, filter_cons_of_pos (by simp), filter_append,
    filter_cons_of_pos (by simpa using hkind)] at hall
  obtain ⟨above, line, below, w, more, hlines, hline, -, hrest⟩ :=
    exists_of_flatMap_eq_append_cons hall.symm
  obtain ⟨rfl, hclosers⟩ := SourceLine.keywords_eq_cons_of_opens hline hopens
  cases more with
  | nil =>
    obtain ⟨body, last, behind, front, rest, rfl, hlast, hbody, -⟩ :=
      exists_of_flatMap_eq_append_cons hrest.symm
    rw [hbody] at hdepth
    exact .inr ⟨⟨above, line, body, last, behind, front, rest, hlines, hline, hlast, hopens,
      hcloses, hkind, hdepth⟩⟩
  | cons e more =>
    -- The keyword behind the opener closes, so nothing stands between the pair.
    have he := mark_of_closes (hclosers e mem_cons_self)
    cases hfilter : inner.filter fun e => e.kind = o.kind with
    | nil =>
      rw [hfilter] at hrest
      obtain ⟨rfl, -⟩ := List.cons.inj hrest
      exact .inl ⟨line, by simp [hlines], more, hline⟩
    | cons e' between =>
      rw [hfilter] at hrest hdepth
      obtain ⟨rfl, -⟩ := List.cons.inj hrest
      rw [map_cons, he] at hdepth
      simp at hdepth

end Finding

end KrlWorkbench
