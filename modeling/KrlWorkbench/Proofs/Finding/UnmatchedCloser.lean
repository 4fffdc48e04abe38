import KrlWorkbench.Proofs.Finding.BlockPairs
import KrlWorkbench.Proofs.Finding.UnmatchedOpener

/-!
# When a single closer without an opener is reported once

Put one closer more into a document whose blocks pair up.  If no block of its kind is open there, it
is reported and all else stays as it was.  If the innermost open blocks are of its kind, it closes
the first of them, the closer meant for that one closes the next, and so on
(`exists_closer_passed_on`); the last closer in this chain is the one without an opener.

But a closer looks for a block of its kind anywhere among the open ones.  If a block of another kind
is open inside one of its kind, it is reported and takes both away, and the closers of these two
find nothing of theirs later on.  So there is one finding exactly if all open blocks of the kind are
innermost (`balance_of_single_closer`).
-/

namespace KrlWorkbench.Finding

open List

variable {ctx : Context} {stack outer rest : List BlockEvent} {closed : BlockEvent}

/-- The finding for a closer of a kind that is not open. -/
def unexpected (ctx : Context) (closed : BlockEvent) : Finding :=
  ⟨eventRange ctx closed, .unexpectedCloser closed.kind.closer closed.kind.opener⟩

lemma expects_unexpected (ctx : Context) (closed : BlockEvent) :
    (unexpected ctx closed).Expects closed.kind.opener := rfl

/-- The open blocks of a kind are innermost: none of another kind is open inside one of them. -/
def InnermostOnly (kind : BlockKind) (stack : List BlockEvent) : Prop :=
  ∃ inner outer, stack = inner ++ outer ∧ (∀ o ∈ inner, o.kind = kind) ∧ ∀ o ∈ outer, o.kind ≠ kind

/-- Else a block of another kind has one of the kind around it. -/
lemma exists_append_of_not_innermostOnly {kind : BlockKind}
    (h : ¬InnermostOnly kind stack) :
    ∃ inner top outer, stack = inner ++ top :: outer ∧ (∀ o ∈ inner, o.kind = kind) ∧
      top.kind ≠ kind ∧ ∃ o ∈ outer, o.kind = kind := by
  induction stack with
  | nil => exact absurd ⟨[], [], rfl, by simp, by simp⟩ h
  | cons top stack ih =>
    by_cases htop : top.kind = kind
    · have hrest : ¬InnermostOnly kind stack := by
        rintro ⟨inner, outer, rfl, hinner, houter⟩
        exact h ⟨top :: inner, outer, rfl, forall_mem_cons.mpr ⟨htop, hinner⟩, houter⟩
      obtain ⟨inner, other, outer, rfl, hinner, hother⟩ := ih hrest
      exact ⟨top :: inner, other, outer, rfl, forall_mem_cons.mpr ⟨htop, hinner⟩, hother⟩
    · refine ⟨[], top, stack, rfl, by simp, htop, ?_⟩
      by_contra hnone
      exact h ⟨[], top :: stack, rfl, by simp,
        forall_mem_cons.mpr ⟨htop, fun o ho hkind => hnone ⟨o, ho, hkind⟩⟩⟩

/-! ## The closer that is left over -/

/-- A closer of the kind of the innermost blocks is passed on: each of these blocks is closed by the
closer in front of its own, and the last closer finds what is around them. -/
lemma exists_closer_passed_on {stray : BlockEvent} (hcloses : stray.opens = false)
    {inner events : List BlockEvent} (hinner : ∀ o ∈ inner, o.kind = stray.kind)
    (h : balanceFrom ctx (inner ++ outer) events = []) :
    ∃ closed ∈ stray :: events, ∃ rest, closed.opens = false ∧ closed.kind = stray.kind ∧
      balanceFrom ctx outer rest = [] ∧
      balanceFrom ctx (inner ++ outer) (stray :: events) =
        balanceFrom ctx outer (closed :: rest) := by
  induction inner generalizing stray events with
  | nil => exact ⟨stray, mem_cons_self, events, hcloses, rfl, h, rfl⟩
  | cons top inner ih =>
    have htop : top.kind = stray.kind := hinner top mem_cons_self
    obtain ⟨word, own, rest, rfl, hword, hown, hkind, hrest⟩ :=
      exists_closer_of_balanceFrom_eq_nil h
    have hkind' : own.kind = stray.kind := hkind.trans htop
    obtain ⟨closed, hmem, rest', hclosed, hsame, hclean, hrun⟩ :=
      ih hown (fun o ho => (hinner o (mem_cons_of_mem _ ho)).trans hkind'.symm) hrest
    refine ⟨closed, ?_, rest', hclosed, hsame.trans hkind', hclean, ?_⟩
    · exact mem_cons_of_mem _ (mem_append_right _ hmem)
    · rw [cons_append, balanceFrom_closer hcloses htop.symm, balanceFrom_append hword, hrun]

/-- A closer of a kind that is not open is the only finding. -/
lemma balanceFrom_unexpected_alone (hcloses : closed.opens = false)
    (hnone : ∀ o ∈ stack, o.kind ≠ closed.kind)
    (h : balanceFrom ctx stack rest = []) :
    balanceFrom ctx stack (closed :: rest) = [unexpected ctx closed] := by
  have hdrop : (stack.dropWhile fun o => o.kind != closed.kind) = [] := by
    rw [dropWhile_eq_nil_iff]
    intro o ho
    simpa using hnone o ho
  rw [balanceFrom_unexpected hcloses hdrop, h]
  rfl

/-- A closer that gives up a block of another kind is not the only finding, for of its own kind
there is now one open block too few. -/
lemma two_le_length_balanceFrom {top : BlockEvent} (hcloses : closed.opens = false)
    (htop : top.kind ≠ closed.kind)
    (hopen : ∃ o ∈ outer, o.kind = closed.kind) (h : balanceFrom ctx (top :: outer) rest = []) :
    2 ≤ (balanceFrom ctx (top :: outer) (closed :: rest)).length := by
  have hsplit : top :: outer = ((top :: outer).takeWhile fun o => o.kind != closed.kind) ++
      (top :: outer).dropWhile fun o => o.kind != closed.kind :=
    takeWhile_append_dropWhile.symm
  cases hdrop : (top :: outer).dropWhile fun o => o.kind != closed.kind with
  | nil =>
    obtain ⟨o, ho, hkind⟩ := hopen
    have hother := dropWhile_eq_nil_iff.mp hdrop o (mem_cons_of_mem _ ho)
    simp [hkind] at hother
  | cons opened below =>
    have hopened : opened.kind = closed.kind := by
      have hhead := head?_dropWhile_not (fun o : BlockEvent => o.kind != closed.kind)
        (top :: outer)
      rw [hdrop] at hhead
      simpa using hhead
    have hcount : (below.countP fun o => o.kind = closed.kind) <
        (top :: outer).countP fun o => o.kind = closed.kind := by
      rw [hsplit, hdrop, countP_append, countP_cons_of_pos (by simpa using hopened)]
      omega
    -- Two stacks that the rest closes have as many blocks of each kind.
    have hfew : balanceFrom ctx below rest ≠ [] := by
      intro hclean
      have hdepth := ScopeMark.eq_of_depthAfter_eq
        (depthAfter_of_balanceFrom_eq_nil closed.kind hclean)
        (depthAfter_of_balanceFrom_eq_nil closed.kind h)
      omega
    rw [balanceFrom_closing hcloses hdrop, if_neg htop, length_append, length_singleton]
    have hpos := length_pos_iff.mpr hfew
    omega

/-! ## Documents -/

/-- **When one unmatched closer gives one finding.**  Let a document's block keywords be well nested
but for one closer.  If the blocks of its kind that are open there are innermost, the check of
blocks has one finding; it is about a closer of that kind, the unmatched one or one behind it, and
expects the opener.  If a block of another kind is open inside one of its kind, there are several
findings. -/
theorem balance_of_single_closer {text : Text} {view : WorkspaceView}
    {before after : List BlockEvent} {extra : BlockEvent} (hcloses : extra.opens = false)
    (hevents : blockEvents (Context.ofText text view) = before ++ extra :: after)
    (hnested : WellNested (before ++ after)) :
    (InnermostOnly extra.kind (openAfter [] before) →
      ∃ closed ∈ extra :: after, closed.opens = false ∧ closed.kind = extra.kind ∧
        balance (Context.ofText text view) = [unexpected (Context.ofText text view) closed] ∧
        (unexpected (Context.ofText text view) closed).Expects extra.kind.opener) ∧
    (¬InnermostOnly extra.kind (openAfter [] before) →
      2 ≤ (balance (Context.ofText text view)).length) := by
  obtain ⟨found, hrun⟩ := exists_balanceFrom_append (Context.ofText text view) [] before
  have hclean :
      found ++ balanceFrom (Context.ofText text view) (openAfter [] before) after = [] := by
    rw [← hrun, balanceFrom_nil_eq_nil_iff]
    exact hnested
  -- Without the closer nothing is found, neither in front of it nor behind.
  obtain ⟨rfl, hafter⟩ := append_eq_nil_iff.mp hclean
  have hbalance : balance (Context.ofText text view) =
      balanceFrom (Context.ofText text view) (openAfter [] before) (extra :: after) := by
    rw [balance, hevents, hrun, nil_append]
  rw [hbalance]
  constructor
  · rintro ⟨inner, outer, hstack, hinner, houter⟩
    rw [hstack] at hafter ⊢
    obtain ⟨closed, hmem, rest, hclosed, hkind, hrest, hpassed⟩ :=
      exists_closer_passed_on hcloses hinner hafter
    refine ⟨closed, hmem, hclosed, hkind, ?_, hkind ▸ expects_unexpected _ closed⟩
    rw [hpassed]
    exact balanceFrom_unexpected_alone hclosed (fun o ho => by rw [hkind]; exact houter o ho) hrest
  · intro hcovered
    obtain ⟨inner, top, outer, hstack, hinner, htop, hopen⟩ :=
      exists_append_of_not_innermostOnly hcovered
    rw [hstack] at hafter ⊢
    obtain ⟨closed, -, rest, hclosed, hkind, hrest, hpassed⟩ :=
      exists_closer_passed_on hcloses hinner hafter
    rw [hpassed]
    rw [← hkind] at htop hopen
    exact two_le_length_balanceFrom hclosed htop hopen hrest

/-- The first `ENDIF` is one too many.  It closes the `IF` in place of the second one, which is then
the one that is reported. -/
theorem balance_of_single_closer_passedOn :
    let text : Text := "WHILE a\nIF b THEN\nENDIF\nENDIF\nENDWHILE\n".toList
    let before : List BlockEvent := [⟨.whileBlock, true, 0, 0⟩, ⟨.ifBlock, true, 1, 0⟩]
    let extra : BlockEvent := ⟨.ifBlock, false, 2, 0⟩
    let after : List BlockEvent := [⟨.ifBlock, false, 3, 0⟩, ⟨.whileBlock, false, 4, 0⟩]
    blockEvents (Context.ofText text {}) = before ++ extra :: after ∧
      WellNested (before ++ after) ∧ InnermostOnly .ifBlock (openAfter [] before) ∧
      ∃ closed ∈ extra :: after,
        balance (Context.ofText text {}) = [unexpected (Context.ofText text {}) closed] ∧
        (unexpected (Context.ofText text {}) closed).Expects "IF" := by
  intro text before extra after
  have hevents : blockEvents (Context.ofText text {}) = before ++ extra :: after := by
    decide +kernel
  have hinner : WellNested [⟨.ifBlock, true, 1, 0⟩, ⟨.ifBlock, false, 3, 0⟩] :=
    @WellNested.block _ _ [] [] rfl rfl rfl .nil .nil
  have hnested : WellNested (before ++ after) :=
    @WellNested.block _ _ [_, _] [] rfl rfl rfl hinner .nil
  have hopen : InnermostOnly .ifBlock (openAfter [] before) :=
    ⟨[⟨.ifBlock, true, 1, 0⟩], [⟨.whileBlock, true, 0, 0⟩], rfl, by decide, by decide⟩
  obtain ⟨closed, hmem, -, -, hfound, hexpects⟩ :=
    (balance_of_single_closer rfl hevents hnested).1 hopen
  exact ⟨hevents, hnested, hopen, closed, hmem, hfound, hexpects⟩

/-- The first `ENDIF` is one too many.  It takes away the `WHILE` and the `IF` around it, and their
own closers are reported too. -/
theorem balance_of_stray_closer_cascades :
    let text : Text := "IF TRUE THEN\nWHILE TRUE\nENDIF\nENDWHILE\nENDIF\n".toList
    let before : List BlockEvent := [⟨.ifBlock, true, 0, 0⟩, ⟨.whileBlock, true, 1, 0⟩]
    let extra : BlockEvent := ⟨.ifBlock, false, 2, 0⟩
    let after : List BlockEvent := [⟨.whileBlock, false, 3, 0⟩, ⟨.ifBlock, false, 4, 0⟩]
    blockEvents (Context.ofText text {}) = before ++ extra :: after ∧ extra.opens = false ∧
      WellNested (before ++ after) ∧ (balance (Context.ofText text {})).length = 3 := by
  intro text before extra after
  have hinner : WellNested [⟨.whileBlock, true, 1, 0⟩, ⟨.whileBlock, false, 3, 0⟩] :=
    @WellNested.block _ _ [] [] rfl rfl rfl .nil .nil
  exact ⟨by decide +kernel, rfl, @WellNested.block _ _ [_, _] [] rfl rfl rfl hinner .nil,
    by decide +kernel⟩

end KrlWorkbench.Finding
