import KrlWorkbench.Proofs.Finding.BlockNesting
import KrlWorkbench.Proofs.Scope.Depth

/-!
# Open blocks, and keywords that belong together

The check of blocks carries a stack of open blocks along.  `stackAfter` is what an event does to it
and `openAfter` what a run of events does; the check reports something about each event and goes on
from there (`exists_balanceFrom_append`).  When a closer takes a block off the stack, the opener of
the block and the closer belong together.  `blockPairs` lists these pairs.

In a well-nested word the pairs can be read off the grammar.  The events between opener and closer
are a well-nested word again (`exists_append_of_mem_pairsFrom`), and every event belongs to a pair
(`exists_mem_pairsFrom`).  Seen in one kind of block alone, such a word keeps the depth
(`depthAfter_kindMarks`), which is how searches that know a single kind find partners.
-/

namespace KrlWorkbench

open List

variable {e event : BlockEvent} {word : List BlockEvent}

/-! ## Events of one kind -/

/-- Whether an event opens or closes. -/
def BlockEvent.mark (e : BlockEvent) : ScopeMark :=
  if e.opens then .opener else .closer

lemma BlockEvent.mark_of_opens (h : e.opens = true) : e.mark = .opener := by
  rw [mark, if_pos h]

lemma BlockEvent.mark_of_closes (h : e.opens = false) : e.mark = .closer := by
  rw [mark, if_neg (by simp [h])]

/-- The openers and closers of one kind. -/
def kindMarks (kind : BlockKind) (events : List BlockEvent) : List ScopeMark :=
  (events.filter fun e => e.kind = kind).map BlockEvent.mark

section KindMarks

open ScopeMark

variable {kind : BlockKind}

@[simp] lemma kindMarks_append (a b : List BlockEvent) :
    kindMarks kind (a ++ b) = kindMarks kind a ++ kindMarks kind b := by
  simp [kindMarks]

lemma kindMarks_cons_of_eq (h : e.kind = kind) (events : List BlockEvent) :
    kindMarks kind (e :: events) = e.mark :: kindMarks kind events := by
  simp [kindMarks, h]

lemma kindMarks_cons_of_ne (h : e.kind ≠ kind) (events : List BlockEvent) :
    kindMarks kind (e :: events) = kindMarks kind events := by
  simp [kindMarks, h]

/-- A well-nested word leaves the depth in each kind as it was. -/
lemma depthAfter_kindMarks (h : WellNested word) (d : Nat) :
    depthAfter d (kindMarks kind word) = some d := by
  induction h generalizing d with
  | nil => simp [kindMarks]
  | @block opened closed inner rest hopens hcloses hkind _ _ ihinner ihrest =>
    by_cases h : opened.kind = kind
    · rw [kindMarks_cons_of_eq h, kindMarks_append, kindMarks_cons_of_eq (hkind.trans h),
        BlockEvent.mark_of_opens hopens, BlockEvent.mark_of_closes hcloses, depthAfter_opener,
        depthAfter_append, ihinner, Option.bind_some, depthAfter_closer_succ, ihrest]
    · rw [kindMarks_cons_of_ne h, kindMarks_append, kindMarks_cons_of_ne (by rwa [hkind]),
        depthAfter_append, ihinner, Option.bind_some, ihrest]

end KindMarks

namespace Finding

variable {ctx : Context}

/-! ## The open blocks -/

/-- The open blocks behind an event, innermost first. -/
def stackAfter (stack : List BlockEvent) (event : BlockEvent) : List BlockEvent :=
  if event.opens then event :: stack
  else
    match stack.dropWhile fun o => o.kind != event.kind with
    | [] => stack
    | _ :: below => below

/-- The open blocks behind some events. -/
def openAfter (stack events : List BlockEvent) : List BlockEvent :=
  events.foldl stackAfter stack

lemma stackAfter_opener (h : event.opens = true) (stack : List BlockEvent) :
    stackAfter stack event = event :: stack := by
  rw [stackAfter, if_pos h]

lemma stackAfter_closer {top : BlockEvent} (h : event.opens = false) (hkind : event.kind = top.kind)
    (below : List BlockEvent) : stackAfter (top :: below) event = below := by
  simp [stackAfter, h, hkind]

/-- One step of the check: it reports something and goes on with the open blocks. -/
lemma exists_balanceFrom_cons (ctx : Context) (stack : List BlockEvent) (event : BlockEvent) :
    ∃ found, ∀ rest, balanceFrom ctx stack (event :: rest) =
      found ++ balanceFrom ctx (stackAfter stack event) rest := by
  cases hopens : event.opens with
  | true =>
    refine ⟨[], fun rest => ?_⟩
    rw [stackAfter_opener hopens, balanceFrom_opener hopens, nil_append]
  | false =>
    rw [stackAfter, if_neg (by simp [hopens])]
    cases hopen : stack.dropWhile fun o => o.kind != event.kind with
    | nil => exact ⟨[_], fun rest => balanceFrom_unexpected hopens hopen rest⟩
    | cons opened below =>
      cases stack with
      | nil => simp at hopen
      | cons top outer => exact ⟨_, fun rest => balanceFrom_closing hopens hopen rest⟩

/-- **A run of the check** reports something and goes on with the open blocks. -/
lemma exists_balanceFrom_append (ctx : Context) (stack events : List BlockEvent) :
    ∃ found, ∀ rest, balanceFrom ctx stack (events ++ rest) =
      found ++ balanceFrom ctx (openAfter stack events) rest := by
  induction events generalizing stack with
  | nil => exact ⟨[], fun _ => rfl⟩
  | cons event events ih =>
    obtain ⟨found, hstep⟩ := exists_balanceFrom_cons ctx stack event
    obtain ⟨more, hrun⟩ := ih (stackAfter stack event)
    refine ⟨found ++ more, fun rest => ?_⟩
    rw [cons_append, hstep, hrun, append_assoc]
    rfl

/-- A run without findings closes as many blocks of each kind as are open. -/
lemma depthAfter_of_balanceFrom_eq_nil (kind : BlockKind) {stack events : List BlockEvent}
    (h : balanceFrom ctx stack events = []) :
    ScopeMark.depthAfter (stack.countP fun o => o.kind = kind) (kindMarks kind events) =
      some 0 := by
  induction stack generalizing events with
  | nil => exact depthAfter_kindMarks (balanceFrom_nil_eq_nil_iff.mp h) 0
  | cons top below ih =>
    obtain ⟨inner, closed, rest, rfl, hinner, hcloses, hkind, hrest⟩ :=
      exists_closer_of_balanceFrom_eq_nil h
    rw [kindMarks_append, ScopeMark.depthAfter_append, depthAfter_kindMarks hinner,
      Option.bind_some]
    by_cases htop : top.kind = kind
    · rw [kindMarks_cons_of_eq (hkind.trans htop), BlockEvent.mark_of_closes hcloses,
        countP_cons_of_pos (by simpa using htop), ScopeMark.depthAfter_closer_succ, ih hrest]
    · rw [kindMarks_cons_of_ne (by rwa [hkind]), countP_cons_of_neg (by simpa using htop), ih hrest]

/-! ## The pairs -/

/-- The opener of the block that an event closes. -/
def closedBy? (stack : List BlockEvent) (event : BlockEvent) : Option BlockEvent :=
  if event.opens then none else (stack.dropWhile fun o => o.kind != event.kind).head?

/-- The openers and closers that belong together, where `stack` holds the open blocks. -/
def pairsFrom : List BlockEvent → List BlockEvent → List (BlockEvent × BlockEvent)
  | _, [] => []
  | stack, event :: rest =>
    ((closedBy? stack event).map fun opened => (opened, event)).toList ++
      pairsFrom (stackAfter stack event) rest

/-- The openers and closers of a document that belong together. -/
def blockPairs (ctx : Context) : List (BlockEvent × BlockEvent) :=
  pairsFrom [] (blockEvents ctx)

lemma pairsFrom_opener (h : event.opens = true) (stack rest : List BlockEvent) :
    pairsFrom stack (event :: rest) = pairsFrom (event :: stack) rest := by
  rw [pairsFrom, stackAfter_opener h, closedBy?, if_pos h]
  rfl

lemma pairsFrom_closer {top : BlockEvent} (h : event.opens = false) (hkind : event.kind = top.kind)
    (below rest : List BlockEvent) :
    pairsFrom (top :: below) (event :: rest) = (top, event) :: pairsFrom below rest := by
  rw [pairsFrom, stackAfter_closer h hkind, closedBy?, if_neg (by simp [h]),
    dropWhile_cons_of_neg (by simp [hkind])]
  rfl

/-- A well-nested word has the same pairs wherever it stands. -/
lemma pairsFrom_append (h : WellNested word) (stack rest : List BlockEvent) :
    pairsFrom stack (word ++ rest) = pairsFrom [] word ++ pairsFrom stack rest := by
  induction h generalizing stack rest with
  | nil => rfl
  | @block opened closed inner after hopens hcloses hkind _ _ ihinner ihafter =>
    have hblock : ∀ stack rest, pairsFrom stack (opened :: (inner ++ closed :: after) ++ rest) =
        pairsFrom [] inner ++
          (opened, closed) :: (pairsFrom [] after ++ pairsFrom stack rest) := by
      intro stack rest
      rw [cons_append, pairsFrom_opener hopens, append_assoc, cons_append, ihinner,
        pairsFrom_closer hcloses hkind, ihafter]
    have halone := hblock [] []
    rw [append_nil] at halone
    rw [hblock, halone]
    simp [pairsFrom]

lemma pairsFrom_block {opened closed : BlockEvent} {inner after : List BlockEvent}
    (hopens : opened.opens = true) (hcloses : closed.opens = false)
    (hkind : closed.kind = opened.kind) (hinner : WellNested inner) :
    pairsFrom [] (opened :: (inner ++ closed :: after)) =
      pairsFrom [] inner ++ (opened, closed) :: pairsFrom [] after := by
  rw [pairsFrom_opener hopens, pairsFrom_append hinner, pairsFrom_closer hcloses hkind]

/-- **What stands between a pair is well nested.** -/
lemma exists_append_of_mem_pairsFrom (h : WellNested word) {pair : BlockEvent × BlockEvent}
    (hpair : pair ∈ pairsFrom [] word) :
    pair.1.opens = true ∧ pair.2.opens = false ∧ pair.2.kind = pair.1.kind ∧
      ∃ before inner after, word = before ++ pair.1 :: (inner ++ pair.2 :: after) ∧
        WellNested inner := by
  induction h with
  | nil => cases hpair
  | @block opened closed inner rest hopens hcloses hkind hinner _ ihinner ihrest =>
    rw [pairsFrom_block hopens hcloses hkind hinner] at hpair
    rcases mem_append.mp hpair with hpair | hpair
    · obtain ⟨h₁, h₂, h₃, before, word, after, hword, hnested⟩ := ihinner hpair
      exact ⟨h₁, h₂, h₃, opened :: before, word, after ++ closed :: rest, by simp [hword],
        hnested⟩
    · rcases mem_cons.mp hpair with rfl | hpair
      · exact ⟨hopens, hcloses, hkind, [], inner, rest, rfl, hinner⟩
      · obtain ⟨h₁, h₂, h₃, before, word, after, hword, hnested⟩ := ihrest hpair
        exact ⟨h₁, h₂, h₃, opened :: (inner ++ closed :: before), word, after, by simp [hword],
          hnested⟩

/-- Every event of a well-nested word belongs to a pair. -/
lemma exists_mem_pairsFrom (h : WellNested word) (he : e ∈ word) :
    ∃ pair ∈ pairsFrom [] word, e = pair.1 ∨ e = pair.2 := by
  induction h with
  | nil => cases he
  | @block opened closed inner rest hopens hcloses hkind hinner _ ihinner ihrest =>
    rw [pairsFrom_block hopens hcloses hkind hinner]
    rcases mem_cons.mp he with rfl | he
    · exact ⟨_, mem_append_right _ mem_cons_self, .inl rfl⟩
    · rcases mem_append.mp he with he | he
      · obtain ⟨pair, hpair, hends⟩ := ihinner he
        exact ⟨pair, mem_append_left _ hpair, hends⟩
      · rcases mem_cons.mp he with rfl | he
        · exact ⟨_, mem_append_right _ mem_cons_self, .inr rfl⟩
        · obtain ⟨pair, hpair, hends⟩ := ihrest he
          exact ⟨pair, mem_append_right _ (mem_cons_of_mem _ hpair), hends⟩

end Finding

end KrlWorkbench
