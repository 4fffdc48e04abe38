import KrlWorkbench.Proofs.Finding.KindLines

/-!
# Empty blocks and the partners of their openers

The check for empty blocks looks for the end of a block on its own: it reads the lines below the
opener, counts openers and closers of its kind and ignores all other keywords.  Where the check of
blocks has no findings, the keywords of the kind between an opener and its closer come back to depth
zero, so the count stops at the closer that the check of blocks pairs with the opener
(`closerFrom_eq`), and a block is reported as empty exactly if no statement stands between its two
keywords.
-/

namespace KrlWorkbench.Finding

open List BlockEvent Context ScopeMark Text

variable {f : Finding} {w w' : List BlockEvent} {below : List SourceLine} {last line : SourceLine}
variable {d : Nat} {c o : BlockEvent}

variable {ctx : Context} {kind : BlockKind}

/-! ## The count finds the partner -/

lemma closeIn_append {e : Nat} {before : List Match} (after : List Match)
    (h : depthAfter d (before.map fun _ => .closer) = some e) :
    closeIn d (before ++ after) = closeIn e after := by
  induction before generalizing d with
  | nil =>
    obtain rfl : d = e := by simpa using h
    rfl
  | cons m before ih =>
    cases d with
    | zero => simp at h
    | succ d =>
      rw [cons_append, closeIn, if_neg (Nat.succ_ne_zero d), Nat.add_sub_cancel, ih h]

/-- In its line the closer is the first that is met at depth zero. -/
lemma closeIn_of_keywords (hlast : last.keywords kind = w ++ c :: w') (hcloses : c.opens = false)
    (h : depthAfter d (w.map mark) = some 0) :
    closeIn (if kind.openerPattern.isIn last.code then d + 1 else d)
      (kind.closerPattern.occurrences last.code) = .inr c.column := by
  have hclosers : ∀ {d : Nat} {w : List BlockEvent},
      closersOf last.code last.number kind = w ++ c :: w' →
      depthAfter d (w.map mark) = some 0 →
      closeIn d (kind.closerPattern.occurrences last.code) = .inr c.column := by
    intro d w hw h
    obtain ⟨before, rest, hfound, rfl, hrest⟩ := map_eq_append_iff.mp hw
    obtain ⟨m, after, rfl, rfl, -⟩ := map_eq_cons_iff.mp hrest
    rw [map_map] at h
    rw [hfound, closeIn_append _ h, closeIn, if_pos rfl]
  rw [SourceLine.keywords] at hlast
  cases hfind : kind.openerPattern.find? last.code with
  | none =>
    rw [ofKind_of_find?_eq_none hfind] at hlast
    rw [if_neg (by simp [Pattern.isIn, hfind]), hclosers hlast h]
  | some m =>
    rw [ofKind_of_find? hfind] at hlast
    cases w with
    | nil =>
      obtain ⟨rfl, -⟩ := List.cons.inj hlast
      cases hcloses
    | cons e w =>
      obtain ⟨rfl, hrest⟩ := List.cons.inj hlast
      rw [if_pos (by simp [Pattern.isIn, hfind]), hclosers hrest h]

/-- **The count stops at the first closer that is met at depth zero.** -/
lemma closerFrom_eq {body behind : List SourceLine}
    (hlast : last.keywords kind = w ++ c :: w') (hcloses : c.opens = false)
    (h : depthAfter d ((body.flatMap (·.keywords kind) ++ w).map mark) = some 0) :
    closerFrom kind d (body ++ last :: behind) = some (body, last, c.column) := by
  induction body generalizing d with
  | nil => rw [nil_append, closerFrom, closeIn_of_keywords hlast hcloses h]
  | cons line body ih =>
    rw [flatMap_cons, append_assoc, map_append] at h
    obtain ⟨e, hline, hrest⟩ := exists_depthAfter_of_append h
    rw [SourceLine.depthAfter_keywords, ← map_const'] at hline
    have hcount := closeIn_append [] hline
    rw [append_nil, closeIn] at hcount
    rw [cons_append, closerFrom, hcount]
    dsimp only
    rw [ih hrest]
    rfl

/-! ## What is reported -/

/-- The finding for an empty block. -/
def emptyBlock (ctx : Context) (opened : BlockEvent) : Finding :=
  ⟨eventRange ctx opened, .emptyBlock opened.kind.opener⟩

lemma exists_opener_of_mem_emptyAt
    (h : f ∈ emptyAt ctx kind line below) : ∃ o ∈ line.keywords kind, f = emptyBlock ctx o := by
  rw [emptyAt] at h
  split at h
  case h_1 => cases h
  case h_2 m hfind =>
    split_ifs at h
    · cases h
    · split at h
      case h_1 => cases h
      case h_2 =>
        split_ifs at h
        · refine ⟨⟨kind, true, line.number, m.whole.stop - kind.opener.length⟩, ?_,
            mem_singleton.mp h⟩
          rw [SourceLine.keywords, ofKind_of_find? hfind]
          exact mem_cons_self
        · cases h

/-- The line of an opener reports it according to the lines up to its closer. -/
lemma Apart.emptyAt_eq (s : Apart ctx o c) :
    emptyAt ctx o.kind s.line (s.body ++ s.last :: s.behind) =
      if isEmptyBody s.body s.last c.column then [emptyBlock ctx o] else [] := by
  have hkeywords := s.line_keywords
  rw [SourceLine.keywords] at hkeywords
  cases hfind : o.kind.openerPattern.find? s.line.code with
  | none =>
    have hmem := s.opener_mem
    rw [SourceLine.keywords, ofKind_of_find?_eq_none hfind] at hmem
    exact absurd s.opens (by simp [opens_of_mem_closersOf hmem])
  | some m =>
    rw [ofKind_of_find? hfind] at hkeywords
    obtain ⟨hopener, hclosers⟩ := List.cons.inj hkeywords
    have hbehind : ¬o.kind.closerPattern.isIn (dropBytes m.whole.stop s.line.code) = true := by
      rw [BlockKind.isIn_dropBytes_iff (BlockKind.opensUpTo_of_find? hfind)]
      exact not_not.mpr (map_eq_nil_iff.mp hclosers)
    rw [emptyAt, hfind]
    dsimp only
    rw [if_neg hbehind, closerFrom_eq s.last_keywords s.closes s.depth_eq, emptyBlock, eventRange,
      keyword, if_pos s.opens, s.opener_line, ← congrArg column hopener]

lemma mem_emptyFrom_iff {lines : List SourceLine} :
    f ∈ emptyFrom ctx kind lines ↔
      ∃ above line below, lines = above ++ line :: below ∧ f ∈ emptyAt ctx kind line below := by
  induction lines with
  | nil => simp [emptyFrom]
  | cons line lines ih =>
    rw [emptyFrom, mem_append, ih]
    constructor
    · rintro (h | ⟨above, line', below, rfl, h⟩)
      · exact ⟨[], line, lines, rfl, h⟩
      · exact ⟨line :: above, line', below, rfl, h⟩
    · rintro ⟨_ | ⟨first, above⟩, line', below, heq, h⟩
      · obtain ⟨rfl, rfl⟩ := List.cons.inj heq
        exact .inl h
      · obtain ⟨rfl, rfl⟩ := List.cons.inj heq
        exact .inr ⟨above, line', below, rfl, h⟩

/-! ## Documents -/

/-- No statement stands between the two keywords of a block: the lines between theirs are blank,
comments or a bare `ELSE`, and only blanks stand in front of the closer. -/
def HasEmptyBody (ctx : Context) (o c : BlockEvent) : Prop :=
  (∀ line ∈ ctx.lines, o.line < line.number → line.number < c.line →
    line.kind = .blank ∨ line.kind = .comment ∨ isBareElse line.code = true) ∧
  ∀ line ∈ ctx.lines, line.number = c.line → allBlank (takeBytes c.column line.code) = true

instance (ctx : Context) (o c : BlockEvent) : Decidable (HasEmptyBody ctx o c) :=
  inferInstanceAs (Decidable (_ ∧ _))

lemma isCode_eq_false_iff {kind : LineKind} :
    kind.isCode = false ↔ kind = .blank ∨ kind = .comment := by
  cases kind <;> simp [LineKind.isCode]

section Document

variable {text : Text} {view : WorkspaceView}

/-- The lines that the check for empty blocks looks at are those between the keywords. -/
lemma Apart.isEmptyBody_iff (s : Apart (ofText text view) o c) :
    isEmptyBody s.body s.last c.column = true ↔ HasEmptyBody (ofText text view) o c := by
  have hstatement : ∀ l : SourceLine, (!l.kind.isCode || isBareElse l.code) = true ↔
      l.kind = .blank ∨ l.kind = .comment ∨ isBareElse l.code = true := by
    intro l
    rw [Bool.or_eq_true, Bool.not_eq_true', isCode_eq_false_iff, or_assoc]
  rw [isEmptyBody, Bool.and_eq_true, all_eq_true, HasEmptyBody]
  refine and_congr ⟨fun h l hl hlt hgt => ?_, fun h l hl => ?_⟩ ⟨fun h l hl heq => ?_, fun h => ?_⟩
  · exact (hstatement l).mp (h l (s.mem_body_iff.mpr ⟨hl, hlt, hgt⟩))
  · obtain ⟨hl, hlt, hgt⟩ := s.mem_body_iff.mp hl
    exact (hstatement l).mpr (h l hl hlt hgt)
  · rwa [eq_of_number_eq hl s.last_mem (heq.trans s.closer_line)]
  · exact h s.last s.last_mem s.closer_line.symm

lemma opener_injective {kind kind' : BlockKind} (h : kind.opener = kind'.opener) :
    kind = kind' := by
  cases kind <;> cases kind' <;> first | rfl | exact absurd h (by decide)

/-- A finding about an opener is the finding of its line. -/
lemma mem_emptyBlocks_iff {above : List SourceLine}
    (hlines : (ofText text view).lines = above ++ line :: below)
    (ho : o ∈ line.keywords o.kind) (hkind : o.kind ∈ emptyChecked) :
    emptyBlock (ofText text view) o ∈ emptyBlocks (ofText text view) ↔
      emptyBlock (ofText text view) o ∈
        emptyAt (ofText text view) o.kind line below := by
  have hline : line ∈ (ofText text view).lines := by simp [hlines]
  rw [emptyBlocks, mem_flatMap]
  constructor
  · rintro ⟨kind, -, h⟩
    obtain ⟨above', line', below', hlines', h⟩ := mem_emptyFrom_iff.mp h
    have hline' : line' ∈ (ofText text view).lines := by simp [hlines']
    obtain ⟨o', ho', heq⟩ := exists_opener_of_mem_emptyAt h
    obtain ⟨hrange, hcause⟩ := Finding.mk.inj heq
    have hsame : o.line = o'.line := by
      rw [← start_line_eventRange (mem_blockEvents_of_mem_keywords hline ho), hrange,
        start_line_eventRange (mem_blockEvents_of_mem_keywords hline' ho')]
    rw [SourceLine.line_eq_number ho, SourceLine.line_eq_number ho'] at hsame
    obtain rfl := eq_of_number_eq hline hline' hsame
    obtain rfl : o.kind = kind :=
      (opener_injective (Cause.emptyBlock.inj hcause)).trans (of_mem_ofKind ho').1
    -- No line comes twice, so it is the same place in the document.
    have hother : ∀ {l l' : List SourceLine},
        (ofText text view).lines = l ++ line :: l' → line ∉ l ∧ line ∉ l' := by
      intro l l' hl
      have hnodup := (nodup_numbers text view).of_map
      rw [hl, nodup_middle, nodup_cons, mem_append, not_or] at hnodup
      exact hnodup.1
    obtain ⟨-, -, rfl⟩ := (append_cons_inj_of_notMem (hother hlines).1 (hother hlines).2).mp
      (hlines.symm.trans hlines')
    exact h
  · intro h
    exact ⟨o.kind, hkind, mem_emptyFrom_iff.mpr ⟨above, line, below, hlines, h⟩⟩

/-- **Empty blocks are found by the pairs of keywords.**  Where the blocks of a document pair up, an
opener of a kind that is checked and that has no closer of its kind behind it in its line has a
partner, and it is reported if and only if no statement stands between the two. -/
theorem emptyBlock_mem_iff_hasEmptyBody {o : BlockEvent}
    (hbalance : balance (Context.ofText text view) = [])
    (ho : o ∈ blockEvents (Context.ofText text view)) (hopens : o.opens = true)
    (hkind : o.kind ∈ emptyChecked)
    (halone : ∀ e ∈ blockEvents (Context.ofText text view), e.kind = o.kind → e.opens = false →
      e.line = o.line → e.column ≤ o.column) :
    (∃ c, (o, c) ∈ blockPairs (Context.ofText text view)) ∧
      ∀ c, (o, c) ∈ blockPairs (Context.ofText text view) →
        (emptyBlock (Context.ofText text view) o ∈ emptyBlocks (Context.ofText text view) ↔
          HasEmptyBody (Context.ofText text view) o c) := by
  have hnested : WellNested (blockEvents (Context.ofText text view)) :=
    balanceFrom_nil_eq_nil_iff.mp hbalance
  constructor
  · obtain ⟨pair, hpair, rfl | rfl⟩ := exists_mem_pairsFrom hnested ho
    · exact ⟨pair.2, hpair⟩
    · rw [(exists_append_of_mem_pairsFrom hnested hpair).2.1] at hopens
      cases hopens
  · intro c hpair
    obtain ⟨-, hcloses, hsame, -⟩ := exists_append_of_mem_pairsFrom hnested hpair
    rcases exists_lines_of_mem_blockPairs hnested hpair with ⟨line, hline, more, hkeywords⟩ | ⟨⟨s⟩⟩
    · -- A closer in the line of the opener stands behind it.
      have hc : c ∈ line.keywords o.kind := by simp [hkeywords]
      have hmem : o ∈ line.keywords o.kind := by simp [hkeywords]
      have hcolumns := BlockEvent.pairwise_ofKind line.code line.number o.kind
      rw [SourceLine.keywords] at hkeywords
      rw [hkeywords, pairwise_cons] at hcolumns
      have hle := halone c (mem_blockEvents_of_mem_keywords hline hc) hsame hcloses
        ((SourceLine.line_eq_number hc).trans (SourceLine.line_eq_number hmem).symm)
      exact absurd (hcolumns.1 c mem_cons_self) (Nat.not_lt.mpr hle)
    · rw [mem_emptyBlocks_iff s.lines_eq s.opener_mem hkind, s.emptyAt_eq, ← s.isEmptyBody_iff]
      split
      case isTrue hempty => simp [hempty]
      case isFalse hempty => simp [hempty]

/-- Two blocks of one kind are closed in the same line.  The inner one holds a bare `ELSE` and is
empty, the outer one holds the inner one and is not. -/
theorem emptyBlock_mem_iff_hasEmptyBody_nested :
    let ctx := Context.ofText "IF a THEN\nIF b THEN\nELSE\n ENDIF ENDIF\n".toList {}
    let outer : BlockEvent := ⟨.ifBlock, true, 0, 0⟩
    let inner : BlockEvent := ⟨.ifBlock, true, 1, 0⟩
    balance ctx = [] ∧ outer ∈ blockEvents ctx ∧ inner ∈ blockEvents ctx ∧
      emptyBlock ctx inner ∈ emptyBlocks ctx ∧ emptyBlock ctx outer ∉ emptyBlocks ctx := by
  intro ctx outer inner
  have hevents : blockEvents ctx =
      [outer, inner, ⟨.ifBlock, false, 3, 1⟩, ⟨.ifBlock, false, 3, 7⟩] := by decide +kernel
  have hbalance : balance ctx = [] := by decide +kernel
  have houter : outer ∈ blockEvents ctx := by rw [hevents]; decide
  have hinner : inner ∈ blockEvents ctx := by rw [hevents]; decide
  have hreport := emptyBlock_mem_iff_hasEmptyBody hbalance hinner rfl (by decide)
    (by rw [hevents]; decide)
  have hquiet := emptyBlock_mem_iff_hasEmptyBody hbalance houter rfl (by decide)
    (by rw [hevents]; decide)
  refine ⟨hbalance, houter, hinner, ?_, ?_⟩
  · refine (hreport.2 ⟨.ifBlock, false, 3, 1⟩ ?_).mpr (by decide +kernel)
    rw [blockPairs, hevents]
    decide
  · refine fun h => absurd ((hquiet.2 ⟨.ifBlock, false, 3, 7⟩ ?_).mp h) (by decide +kernel)
    rw [blockPairs, hevents]
    decide

end Document

end KrlWorkbench.Finding
