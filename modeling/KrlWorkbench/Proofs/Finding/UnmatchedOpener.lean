import KrlWorkbench.Proofs.Finding.BlockNesting

/-!
# A single opener without a closer is reported once

Put one opener more into a document whose blocks pair up.  From there on the pairing has one open
block too many, and which one it is changes: a closer of the kind of that block closes it in place
of the block that was meant, and the latter is then the one too many, a block of the same kind.
The first closer of another kind gives up the block that is too many and puts the pairing right
again; if none comes, the block is left at the end.  Either way there is one finding, and what it
expects is the closer of the opener that was put in.

The induction is on the blocks that are open where the opener stands (`balanceFrom_extra`).  Each
of them is closed by some closer behind the opener, and that closer decides.
-/

namespace KrlWorkbench.Finding

open List

variable {ctx : Context}

/-- The finding asks for a keyword. -/
def Expects (f : Finding) (keyword : String) : Prop :=
  f.cause.data = some (.obj [("expected", .str keyword)])

/-- The finding for a closer that comes while a block of another kind is the innermost open one. -/
def mismatched (ctx : Context) (closed : BlockEvent) (kind : BlockKind) : Finding :=
  ⟨eventRange ctx closed, .mismatchedCloser closed.kind.closer kind.closer⟩

lemma expects_unclosed (ctx : Context) (opened : BlockEvent) :
    (unclosed ctx opened).Expects opened.kind.closer := rfl

lemma expects_mismatched (ctx : Context) (closed : BlockEvent) (kind : BlockKind) :
    (mismatched ctx closed kind).Expects kind.closer := rfl

/-! ## Blocks that are open in front of an event -/

/-- An event that is read without a finding opens a block or closes the innermost one. -/
lemma exists_stack_of_balanceFrom_cons_eq_nil {stack rest : List BlockEvent} {event : BlockEvent}
    (h : balanceFrom ctx stack (event :: rest) = []) :
    ∃ stack', (∀ rest, balanceFrom ctx stack (event :: rest) = balanceFrom ctx stack' rest) ∧
      ∀ e ∈ stack', e ∈ stack ∨ e = event ∧ event.opens = true := by
  cases hopens : event.opens with
  | true =>
    exact ⟨event :: stack, balanceFrom_opener hopens stack,
      forall_mem_cons.mpr ⟨.inr ⟨rfl, rfl⟩, fun _ => .inl⟩⟩
  | false =>
    cases stack with
    | nil => exact absurd h (balanceFrom_nil_closer_ne_nil hopens rest)
    | cons top below =>
      by_cases hkind : event.kind = top.kind
      · exact ⟨below, balanceFrom_closer hopens hkind below, fun e he =>
          .inl (mem_cons_of_mem _ he)⟩
      · exact absurd h (balanceFrom_mismatch_ne_nil hopens hkind below rest)

/-- What is read without a finding leaves some blocks open, and it is their closers that follow. -/
lemma exists_open_of_balanceFrom_append_eq_nil {stack before after : List BlockEvent}
    (h : balanceFrom ctx stack (before ++ after) = []) :
    ∃ opened, (∀ rest, balanceFrom ctx stack (before ++ rest) = balanceFrom ctx opened rest) ∧
      balanceFrom ctx opened after = [] ∧
      ∀ e ∈ opened, e ∈ stack ∨ e ∈ before ∧ e.opens = true := by
  induction before generalizing stack with
  | nil => exact ⟨stack, fun _ => rfl, h, fun e he => .inl he⟩
  | cons event before ih =>
    obtain ⟨stack', hstep, hstack'⟩ := exists_stack_of_balanceFrom_cons_eq_nil h
    obtain ⟨opened, hrun, hafter, hopened⟩ := ih ((hstep _).symm.trans h)
    refine ⟨opened, fun rest => (hstep _).trans (hrun rest), hafter, fun e he => ?_⟩
    rcases hopened e he with he | ⟨he, hopens⟩
    · rcases hstack' e he with he | ⟨rfl, hopens⟩
      · exact .inl he
      · exact .inr ⟨mem_cons_self, hopens⟩
    · exact .inr ⟨mem_cons_of_mem _ he, hopens⟩

/-! ## One open block too many -/

/-- The first closer behind the opener that closes a block in front of it: of the kind of the extra
block it closes that one, and its own block is now the one too many; of another kind it is reported
and all is well again. -/
lemma balanceFrom_extra_closer {extra top closed : BlockEvent} (hcloses : closed.opens = false)
    (hkind : closed.kind = top.kind) (below rest : List BlockEvent) :
    balanceFrom ctx (extra :: top :: below) (closed :: rest) =
      if closed.kind = extra.kind then balanceFrom ctx (top :: below) rest
      else mismatched ctx closed extra.kind :: balanceFrom ctx below rest := by
  split
  case isTrue hsame => exact balanceFrom_closer hcloses hsame _ _
  case isFalse hother =>
    have hopen : ((extra :: top :: below).dropWhile fun o => o.kind != closed.kind) =
        top :: below := by
      rw [dropWhile_cons_of_pos (by simpa using Ne.symm hother),
        dropWhile_cons_of_neg (by simp [hkind])]
    rw [balanceFrom_closing hcloses hopen, if_neg (Ne.symm hother)]
    rfl

/-- **One open block too many is reported once.**  If the events close the blocks of the stack, then
with one more block on top the only finding is an opener of its kind that is left at the end, or a
closer of another kind that stands where this kind should have been closed. -/
lemma balanceFrom_extra (extra : BlockEvent) {stack events : List BlockEvent}
    (h : balanceFrom ctx stack events = []) :
    (∃ opened ∈ extra :: stack, opened.kind = extra.kind ∧
      balanceFrom ctx (extra :: stack) events = [unclosed ctx opened]) ∨
    ∃ closed ∈ events, closed.opens = false ∧ closed.kind ≠ extra.kind ∧
      balanceFrom ctx (extra :: stack) events = [mismatched ctx closed extra.kind] := by
  induction stack generalizing extra events with
  | nil =>
    have hnested : WellNested events := balanceFrom_nil_eq_nil_iff.mp h
    have hframe : balanceFrom ctx [extra] (events ++ []) = balanceFrom ctx [extra] [] :=
      balanceFrom_append hnested [extra] []
    rw [append_nil] at hframe
    exact .inl ⟨extra, mem_cons_self, rfl, hframe⟩
  | cons top below ih =>
    obtain ⟨inner, closed, rest, rfl, hinner, hcloses, hkind, hrest⟩ :=
      exists_closer_of_balanceFrom_eq_nil h
    rw [balanceFrom_append hinner, balanceFrom_extra_closer hcloses hkind]
    by_cases hsame : closed.kind = extra.kind
    · -- The block that was meant is left open in place of the extra one.
      rw [if_pos hsame]
      have htop : top.kind = extra.kind := hkind.symm.trans hsame
      rcases ih top hrest with
        ⟨opened, hopened, hsameKind, hrun⟩ | ⟨later, hlater, hlaterCloses, hother, hrun⟩
      · exact .inl ⟨opened, mem_cons_of_mem _ hopened, hsameKind.trans htop, hrun⟩
      · rw [htop] at hother hrun
        exact .inr ⟨later, by simp [hlater], hlaterCloses, hother, hrun⟩
    · rw [if_neg hsame, hrest]
      exact .inr ⟨closed, by simp, hcloses, hsame, rfl⟩

/-! ## Documents -/

/-- **One unmatched opener gives one finding.**  If a document's block keywords are well nested but
for one opener, the check of blocks has one finding, and it expects the closer of that opener.  It
is about an opener of that kind which is never closed, the unmatched one or one in front of it, or
about a closer of another kind behind it. -/
theorem balance_of_single_opener {text : Text} {view : WorkspaceView}
    {before after : List BlockEvent} {extra : BlockEvent} (hopens : extra.opens = true)
    (hevents : blockEvents (Context.ofText text view) = before ++ extra :: after)
    (hnested : WellNested (before ++ after)) :
    ∃ f, balance (Context.ofText text view) = [f] ∧ f.Expects extra.kind.closer ∧
      ((∃ opened ∈ before ++ [extra], opened.opens = true ∧ opened.kind = extra.kind ∧
          f = unclosed (Context.ofText text view) opened) ∨
        ∃ closed ∈ after, closed.opens = false ∧ closed.kind ≠ extra.kind ∧
          f = mismatched (Context.ofText text view) closed extra.kind) := by
  have hclean : balanceFrom (Context.ofText text view) [] (before ++ after) = [] :=
    balanceFrom_nil_eq_nil_iff.mpr hnested
  obtain ⟨stack, hrun, hafter, hstack⟩ := exists_open_of_balanceFrom_append_eq_nil hclean
  have hbalance : balance (Context.ofText text view) =
      balanceFrom (Context.ofText text view) (extra :: stack) after := by
    rw [balance, hevents, hrun, balanceFrom_opener hopens]
  rw [hbalance]
  rcases balanceFrom_extra extra hafter with
    ⟨opened, hmem, hkind, hfound⟩ | ⟨closed, hmem, hcloses, hkind, hfound⟩
  · have hopened : opened ∈ before ++ [extra] ∧ opened.opens = true := by
      rcases mem_cons.mp hmem with rfl | hmem
      · exact ⟨by simp, hopens⟩
      · obtain h | ⟨h, hopened⟩ := hstack opened hmem
        · cases h
        · exact ⟨mem_append_left _ h, hopened⟩
    exact ⟨_, hfound, hkind ▸ expects_unclosed _ opened,
      .inl ⟨opened, hopened.1, hopened.2, hkind, rfl⟩⟩
  · exact ⟨_, hfound, expects_mismatched _ closed extra.kind,
      .inr ⟨closed, hmem, hcloses, hkind, rfl⟩⟩

/-- The second `IF` is never closed.  The closer behind it closes it in place of the first one, and
the finding is about `ENDWHILE`, which stands where `ENDIF` is expected. -/
theorem balance_of_single_opener_swapped :
    let text : Text := "WHILE a\nIF b THEN\nIF c THEN\nENDIF\nENDWHILE\n".toList
    let before : List BlockEvent := [⟨.whileBlock, true, 0, 0⟩, ⟨.ifBlock, true, 1, 0⟩]
    let extra : BlockEvent := ⟨.ifBlock, true, 2, 0⟩
    let after : List BlockEvent := [⟨.ifBlock, false, 3, 0⟩, ⟨.whileBlock, false, 4, 0⟩]
    blockEvents (Context.ofText text {}) = before ++ extra :: after ∧
      WellNested (before ++ after) ∧
      ∃ f, balance (Context.ofText text {}) = [f] ∧ f.Expects "ENDIF" := by
  intro text before extra after
  have hevents : blockEvents (Context.ofText text {}) = before ++ extra :: after := by
    decide +kernel
  have hinner : WellNested [⟨.ifBlock, true, 1, 0⟩, ⟨.ifBlock, false, 3, 0⟩] :=
    @WellNested.block _ _ [] [] rfl rfl rfl .nil .nil
  have hnested : WellNested (before ++ after) :=
    @WellNested.block _ _ [_, _] [] rfl rfl rfl hinner .nil
  obtain ⟨f, hfound, hexpects, -⟩ := balance_of_single_opener rfl hevents hnested
  exact ⟨hevents, hnested, f, hfound, hexpects⟩

end KrlWorkbench.Finding
