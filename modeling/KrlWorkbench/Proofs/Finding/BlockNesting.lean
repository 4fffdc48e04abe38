import KrlWorkbench.Finding.Balance
import KrlWorkbench.Proofs.Code.Columns

/-!
# Balanced blocks are the well-nested words

The pairing of block keywords recovers from a mistake: a closer takes the nearest open block of
its kind and gives up every block opened after it.  The recovery never hides a mistake.  This
module shows that the pairing has nothing to report exactly when the block keywords of a document
form a word of the bracket language over the nine kinds of block.

`WellNested` is that language, given by its grammar and without a stack.  One direction is a
frame law, `balanceFrom_append`: a well-nested word leaves the stack as it was and adds no
finding.  The other is an inversion, `exists_closer_of_balanceFrom_eq_nil`: a run without
findings closes the innermost open block after a well-nested word, and what follows is a run
without findings on the rest of the stack.

The events themselves come in document order (`blockEvents_pairwise`), since the events of a line
are sorted by column.
-/

namespace KrlWorkbench

open List

variable {event top : BlockEvent} {events : List BlockEvent}

/-! ## Events of a line in column order -/

namespace BlockEvent

lemma pairwise_insertByColumn (event : BlockEvent) {sorted : List BlockEvent}
    (h : sorted.Pairwise fun a b => a.column ≤ b.column) :
    (insertByColumn event sorted).Pairwise fun a b => a.column ≤ b.column := by
  induction sorted with
  | nil => simp [insertByColumn]
  | cons first rest ih =>
    obtain ⟨hfirst, hrest⟩ := pairwise_cons.mp h
    rw [insertByColumn]
    split
    case isTrue hlt =>
      refine pairwise_cons.mpr ⟨forall_mem_cons.mpr ⟨Nat.le_of_lt hlt, fun e he => ?_⟩, h⟩
      exact Nat.le_trans (Nat.le_of_lt hlt) (hfirst e he)
    case isFalse hge =>
      refine pairwise_cons.mpr ⟨?_, ih hrest⟩
      intro e he
      rcases mem_insertByColumn.mp he with rfl | he
      · exact Nat.le_of_not_lt hge
      · exact hfirst e he

/-- What a sorting pass over `events` does to the events sorted before it. -/
lemma pairwise_foldl_insertByColumn (events : List BlockEvent) {sorted : List BlockEvent}
    (h : sorted.Pairwise fun a b => a.column ≤ b.column) :
    (events.foldl (fun sorted event => insertByColumn event sorted) sorted).Pairwise
      fun a b => a.column ≤ b.column := by
  induction events generalizing sorted with
  | nil => exact h
  | cons event rest ih => exact ih (pairwise_insertByColumn event h)

theorem ofLine_pairwise (code : Text) (line : Nat) :
    (ofLine code line).Pairwise fun a b => a.column ≤ b.column :=
  pairwise_foldl_insertByColumn _ List.Pairwise.nil

/-- `a` does not stand after `b` in the document. -/
def NotAfter (a b : BlockEvent) : Prop :=
  a.line < b.line ∨ a.line = b.line ∧ a.column ≤ b.column

end BlockEvent

/-! ## The bracket language of blocks -/

/-- The words in which each closer closes the most recent opener that is still open, an opener of
its own kind, and no opener is left open. -/
inductive WellNested : List BlockEvent → Prop
  | nil : WellNested []
  | block {opened closed : BlockEvent} {inner rest : List BlockEvent}
      (hopens : opened.opens = true) (hcloses : closed.opens = false)
      (hkind : closed.kind = opened.kind) (hinner : WellNested inner) (hrest : WellNested rest) :
      WellNested (opened :: (inner ++ closed :: rest))

namespace Finding

/-! ## One step of the pairing -/

variable {ctx : Context}

lemma balanceFrom_opener (h : event.opens = true) (stack rest : List BlockEvent) :
    balanceFrom ctx stack (event :: rest) = balanceFrom ctx (event :: stack) rest := by
  simp [balanceFrom, h]

/-- A closer of the kind of the innermost open block closes it. -/
lemma balanceFrom_closer (h : event.opens = false) (hkind : event.kind = top.kind)
    (below rest : List BlockEvent) :
    balanceFrom ctx (top :: below) (event :: rest) = balanceFrom ctx below rest := by
  simp [balanceFrom, h, hkind]

lemma balanceFrom_nil_closer_ne_nil (h : event.opens = false) (rest : List BlockEvent) :
    balanceFrom ctx [] (event :: rest) ≠ [] := by
  simp [balanceFrom, h]

/-- A closer of another kind than the innermost open block is reported, whatever the recovery
does to the stack. -/
lemma balanceFrom_mismatch_ne_nil (h : event.opens = false) (hkind : event.kind ≠ top.kind)
    (below rest : List BlockEvent) : balanceFrom ctx (top :: below) (event :: rest) ≠ [] := by
  unfold balanceFrom
  simp only [h, Bool.false_eq_true, if_false]
  split
  case h_1 heq =>
    obtain ⟨rfl, -⟩ := List.cons.inj heq
    rw [if_neg (fun hk => hkind hk.symm)]
    exact cons_ne_nil _ _
  case h_2 => exact cons_ne_nil _ _

/-- A closer of a kind that is not open is reported and leaves the open blocks as they are. -/
lemma balanceFrom_unexpected (h : event.opens = false) {stack : List BlockEvent}
    (hnone : (stack.dropWhile fun o => o.kind != event.kind) = []) (rest : List BlockEvent) :
    balanceFrom ctx stack (event :: rest) =
      ⟨eventRange ctx event, .unexpectedCloser event.kind.closer event.kind.opener⟩ ::
        balanceFrom ctx stack rest := by
  simp [balanceFrom, h, hnone]

/-- A closer of a kind that is open closes the nearest block of it, and is reported if that block is
not the innermost one. -/
lemma balanceFrom_closing {opened : BlockEvent} (h : event.opens = false)
    {outer below : List BlockEvent}
    (hopen : ((top :: outer).dropWhile fun o => o.kind != event.kind) = opened :: below)
    (rest : List BlockEvent) :
    balanceFrom ctx (top :: outer) (event :: rest) =
      (if top.kind = event.kind then [] else
        [⟨eventRange ctx event, .mismatchedCloser event.kind.closer top.kind.closer⟩]) ++
        balanceFrom ctx below rest := by
  simp only [balanceFrom, h, hopen, Bool.false_eq_true, if_false]
  split <;> rfl

/-! ## Runs of the pairing -/

/-- **Frame law.**  A well-nested word is read without a finding and leaves the stack as it
found it. -/
lemma balanceFrom_append {word : List BlockEvent} (h : WellNested word)
    (stack rest : List BlockEvent) :
    balanceFrom ctx stack (word ++ rest) = balanceFrom ctx stack rest := by
  induction h generalizing stack rest with
  | nil => rfl
  | @block opened closed inner after hopens hcloses hkind _ _ ihinner ihafter =>
    calc balanceFrom ctx stack (opened :: (inner ++ closed :: after) ++ rest)
        = balanceFrom ctx (opened :: stack) (inner ++ (closed :: (after ++ rest))) := by
          rw [cons_append, balanceFrom_opener hopens, append_assoc, cons_append]
      _ = balanceFrom ctx (opened :: stack) (closed :: (after ++ rest)) := ihinner _ _
      _ = balanceFrom ctx stack (after ++ rest) := balanceFrom_closer hcloses hkind _ _
      _ = balanceFrom ctx stack rest := ihafter _ _

/-- The pairing reports open blocks and keywords still to come, and looks into the document only for
their ranges. -/
lemma exists_balanceFrom_eq_map (stack events : List BlockEvent) :
    ∃ marks : List (BlockEvent × Cause),
      (∀ m ∈ marks, m.1 ∈ stack ++ events ∧ m.2.code ∈ [.unmatchedBlock, .unclosedBlock]) ∧
        ∀ ctx, balanceFrom ctx stack events = marks.map fun m => ⟨eventRange ctx m.1, m.2⟩ := by
  induction events generalizing stack with
  | nil =>
    refine ⟨stack.reverse.map fun o => (o, .unclosedBlock o.kind.opener o.kind.closer), ?_, ?_⟩
    · simp +contextual [Cause.code]
    · simp [balanceFrom, unclosed]
  | cons event rest ih =>
    -- A step goes on with some of the open blocks, and may report the keyword itself.
    have hstep : ∃ (kept : List BlockEvent) (causes : List Cause), kept ⊆ event :: stack ∧
        (∀ cause ∈ causes, cause.code = .unmatchedBlock) ∧
        ∀ ctx, balanceFrom ctx stack (event :: rest) =
          causes.map (⟨eventRange ctx event, ·⟩) ++ balanceFrom ctx kept rest := by
      cases hopens : event.opens with
      | true =>
        exact ⟨event :: stack, [], List.Subset.refl _, by simp,
          fun ctx => balanceFrom_opener hopens _ _⟩
      | false =>
        cases hopen : stack.dropWhile fun o => o.kind != event.kind with
        | nil =>
          exact ⟨stack, [_], subset_cons_self _ _, by simp [Cause.code],
            fun ctx => balanceFrom_unexpected hopens hopen rest⟩
        | cons opened below =>
          obtain ⟨top, outer, rfl⟩ :=
            exists_cons_of_ne_nil (l := stack) (by rintro rfl; cases hopen)
          have hbelow : below ⊆ top :: outer := fun o ho =>
            (dropWhile_suffix _).subset (hopen ▸ mem_cons_of_mem _ ho)
          refine ⟨below, if top.kind = event.kind then [] else
            [.mismatchedCloser event.kind.closer top.kind.closer],
            subset_cons_of_subset _ hbelow, by split <;> simp [Cause.code], fun ctx => ?_⟩
          rw [balanceFrom_closing hopens hopen]
          split <;> rfl
    obtain ⟨kept, causes, hkept, hcauses, hfrom⟩ := hstep
    obtain ⟨marks, hmarks, hrest⟩ := ih kept
    refine ⟨causes.map (event, ·) ++ marks, forall_mem_append.mpr ⟨?_, fun m hm => ?_⟩, ?_⟩
    · simp +contextual [hcauses]
    · refine ⟨?_, (hmarks m hm).2⟩
      have hmem := (hmarks m hm).1
      have hevent := @hkept m.1
      simp only [mem_cons, mem_append] at hmem hevent ⊢
      tauto
    · intro ctx
      rw [hfrom, hrest, map_append, map_map]
      rfl

/-- A run without findings closes the innermost open block: a well-nested word comes first, then
a closer of the block's kind, and the run goes on without findings below that block. -/
lemma exists_closer_of_balanceFrom_eq_nil {below : List BlockEvent}
    (h : balanceFrom ctx (top :: below) events = []) :
    ∃ inner closed rest, events = inner ++ closed :: rest ∧ WellNested inner ∧
      closed.opens = false ∧ closed.kind = top.kind ∧ balanceFrom ctx below rest = [] := by
  -- Strong induction: an opener is closed first, and the search for the closer of `top` resumes
  -- behind that inner closer.
  induction hn : events.length using Nat.strongRecOn generalizing top below events with
  | ind n ih =>
    cases events with
    | nil => simp [balanceFrom] at h
    | cons event rest =>
      cases hopens : event.opens with
      | true =>
        rw [balanceFrom_opener hopens] at h
        obtain ⟨inner, closed, rest', rfl, hinner, hclosed, hkind, h'⟩ :=
          ih rest.length (by simp [← hn]) h rfl
        obtain ⟨inner', closed', rest'', rfl, hinner', hclosed', hkind', h''⟩ :=
          ih rest'.length (by simp [← hn]; omega) h' rfl
        exact ⟨event :: (inner ++ closed :: inner'), closed', rest'', by simp,
          .block hopens hclosed hkind hinner hinner', hclosed', hkind', h''⟩
      | false =>
        by_cases hkind : event.kind = top.kind
        · rw [balanceFrom_closer hopens hkind] at h
          exact ⟨[], event, rest, rfl, .nil, hopens, hkind, h⟩
        · exact absurd h (balanceFrom_mismatch_ne_nil hopens hkind below rest)

lemma wellNested_of_balanceFrom_nil_eq_nil (h : balanceFrom ctx [] events = []) :
    WellNested events := by
  induction hn : events.length using Nat.strongRecOn generalizing events with
  | ind n ih =>
    cases events with
    | nil => exact .nil
    | cons event rest =>
      cases hopens : event.opens with
      | true =>
        rw [balanceFrom_opener hopens] at h
        obtain ⟨inner, closed, rest', rfl, hinner, hclosed, hkind, h'⟩ :=
          exists_closer_of_balanceFrom_eq_nil h
        exact .block hopens hclosed hkind hinner
          (ih rest'.length (by simp [← hn]; omega) h' rfl)
      | false => exact absurd h (balanceFrom_nil_closer_ne_nil hopens rest)

/-- The pairing, begun with nothing open, reports nothing exactly on well-nested words. -/
lemma balanceFrom_nil_eq_nil_iff : balanceFrom ctx [] events = [] ↔ WellNested events := by
  refine ⟨wellNested_of_balanceFrom_nil_eq_nil, fun h => ?_⟩
  simpa [balanceFrom] using balanceFrom_append h [] []

/-! ## Documents -/

lemma lines_ofText_pairwise (text : Text) (view : WorkspaceView) :
    (Context.ofText text view).lines.Pairwise fun a b => a.number < b.number := by
  rw [pairwise_iff_getElem]
  simp [Context.ofText]

lemma blockEvents_pairwise (text : Text) (view : WorkspaceView) :
    (blockEvents (Context.ofText text view)).Pairwise BlockEvent.NotAfter := by
  rw [blockEvents, flatMap_def, pairwise_flatten]
  constructor
  · intro events hevents
    obtain ⟨line, -, rfl⟩ := mem_map.mp hevents
    refine (BlockEvent.ofLine_pairwise line.code line.number).imp_of_mem ?_
    intro a b ha hb hcolumn
    have ha := (BlockEvent.column_add_length_le ha).1
    have hb := (BlockEvent.column_add_length_le hb).1
    exact .inr ⟨ha.trans hb.symm, hcolumn⟩
  · rw [pairwise_map]
    refine (lines_ofText_pairwise text view).imp ?_
    intro first second hlt a ha b hb
    left
    rw [(BlockEvent.column_add_length_le ha).1, (BlockEvent.column_add_length_le hb).1]
    exact hlt

/-- **Block balance is exact.**  The block keywords of a document, taken in document order, form a
well-nested word if and only if the check of blocks reports nothing. -/
theorem balance_eq_nil_iff_wellNested (text : Text) (view : WorkspaceView) :
    (blockEvents (Context.ofText text view)).Pairwise BlockEvent.NotAfter ∧
      (balance (Context.ofText text view) = [] ↔
        WellNested (blockEvents (Context.ofText text view))) :=
  ⟨blockEvents_pairwise text view, balanceFrom_nil_eq_nil_iff⟩

end Finding
end KrlWorkbench
