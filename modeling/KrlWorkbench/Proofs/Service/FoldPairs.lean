import KrlWorkbench.Proofs.Pattern.Initials
import KrlWorkbench.Proofs.Scope.InnermostBlock
import KrlWorkbench.Service.Fold

/-!
# Folds pair openers with their closers

The folds of a document come from two stacks that are carried along the same lines, one for regions
and one for bodies.  Seen from one of them the lines of the other are plain (`FoldMark.side`), so
each is a machine with a single stack (`Window.paired`), and there is one argument for both.

What such a machine pairs are the blocks of its marks, whatever stray closers and unclosed openers
stand among them (`mem_paired_iff`).  The induction is on the marks; the opener with index `i` in
the stack is taken off by the first closer that `i` closers have been met before.  As the stack
decreases from the top, of two pairs one lies above the other or inside it (`pairwise_paired`).

The blocks of the bodies are the blocks of the scope marks, and a block is the window of its opener
and of its closer (`isBlock_iff_ofMarks?`).  The window of the opener alone does not tell a block:
if the opener is never closed its window runs to the last line, and this line may close another
block.
-/

namespace KrlWorkbench

open List LineRule ScopeMark Text

/-! ## A stack of open lines -/

namespace Window

/-- One window lies above the other or inside it, and they share no end. -/
def Clear (a b : Window) : Prop :=
  a.stop < b.start ∨ b.stop < a.start ∨ a.start < b.start ∧ b.stop < a.stop ∨
    b.start < a.start ∧ a.stop < b.stop

lemma Clear.symm {a b : Window} (h : Clear a b) : Clear b a := by
  unfold Clear at h ⊢
  omega

/-- The windows that a stack of open lines pairs, where the marks begin at line `number`. -/
def paired (stack : List Nat) (number : Nat) : List ScopeMark → List Window
  | [] => []
  | .opener :: rest => paired (number :: stack) (number + 1) rest
  | .closer :: rest =>
    match stack with
    | start :: stack => ⟨start, number⟩ :: paired stack (number + 1) rest
    | [] => paired [] (number + 1) rest
  | .neither :: rest => paired stack (number + 1) rest

variable {stack : List Nat} {number start : Nat} {marks : List ScopeMark} {w : Window}

/-- The open lines, last one first, stand above line `number`. -/
def Descends (number : Nat) (stack : List Nat) : Prop :=
  (number :: stack).Pairwise (· > ·)

lemma Descends.pass (h : Descends number stack) : Descends (number + 1) stack := by
  obtain ⟨habove, hstack⟩ := pairwise_cons.mp h
  exact pairwise_cons.mpr ⟨fun n hn => Nat.lt_succ_of_lt (habove n hn), hstack⟩

lemma Descends.push (h : Descends number stack) : Descends (number + 1) (number :: stack) := by
  refine pairwise_cons.mpr ⟨fun n hn => ?_, h⟩
  rcases mem_cons.mp hn with rfl | hn
  · exact Nat.lt_succ_self n
  · exact Nat.lt_succ_of_lt (rel_of_pairwise_cons h hn)

lemma Descends.pop (h : Descends number (start :: stack)) : Descends (number + 1) stack :=
  pass (h.sublist ((sublist_cons_self start stack).cons_cons number))

/-- A pair ends at a closer to come, and it begins at an open line or at an opener to come. -/
lemma bounds_of_mem_paired (hstack : Descends number stack) (h : w ∈ paired stack number marks) :
    number ≤ w.stop ∧ w.start < w.stop ∧ (w.start ∈ stack ∨ number ≤ w.start) := by
  induction marks generalizing stack number with
  | nil => simp [paired] at h
  | cons m rest ih =>
    cases m with
    | opener =>
      obtain ⟨hstop, hlt, hstart⟩ := ih hstack.push h
      refine ⟨Nat.le_of_succ_le hstop, hlt, ?_⟩
      rcases hstart.imp_left mem_cons.mp with (heq | hmem) | hstart
      · exact .inr (Nat.le_of_eq heq.symm)
      · exact .inl hmem
      · exact .inr (Nat.le_of_succ_le hstart)
    | closer =>
      cases stack with
      | nil =>
        obtain ⟨hstop, hlt, hstart⟩ := ih hstack.pass h
        exact ⟨Nat.le_of_succ_le hstop, hlt, hstart.imp_right Nat.le_of_succ_le⟩
      | cons start stack =>
        rcases mem_cons.mp h with rfl | h
        · exact ⟨Nat.le_refl _, rel_of_pairwise_cons hstack mem_cons_self,
            .inl mem_cons_self⟩
        · obtain ⟨hstop, hlt, hstart⟩ := ih hstack.pop h
          exact ⟨Nat.le_of_succ_le hstop, hlt, hstart.imp (mem_cons_of_mem _) Nat.le_of_succ_le⟩
    | neither =>
      obtain ⟨hstop, hlt, hstart⟩ := ih hstack.pass h
      exact ⟨Nat.le_of_succ_le hstop, hlt, hstart.imp_right Nat.le_of_succ_le⟩

/-- **Of two pairs one lies above the other or inside it.** -/
lemma pairwise_paired (hstack : Descends number stack) :
    (paired stack number marks).Pairwise Clear := by
  induction marks generalizing stack number with
  | nil => exact .nil
  | cons m rest ih =>
    cases m with
    | opener => exact ih hstack.push
    | closer =>
      cases stack with
      | nil => exact ih hstack.pass
      | cons start stack =>
        refine pairwise_cons.mpr ⟨fun w hw => ?_, ih hstack.pop⟩
        -- A later pair begins below the closer, or at a line that was open before `start`.
        obtain ⟨hstop, hlt, hmem | hstart⟩ := bounds_of_mem_paired hstack.pop hw
        · have hbefore : start > w.start :=
            rel_of_pairwise_cons (List.Pairwise.of_cons hstack) hmem
          exact .inr (.inr (.inr ⟨hbefore, hstop⟩))
        · exact .inl hstart
    | neither => exact ih hstack.pass

/-! ## The pairs are the blocks -/

/-- The window runs from an opener to its closer, where the marks begin at line `number`. -/
def BlockFrom (number : Nat) (marks : List ScopeMark) (w : Window) : Prop :=
  ∃ above inner below, marks = above ++ .opener :: (inner ++ .closer :: below) ∧ Nested inner ∧
    w.start = number + above.length ∧ w.stop = w.start + 1 + inner.length

lemma blockFrom_zero : BlockFrom 0 marks w ↔ w.IsBlock marks := by
  constructor
  · rintro ⟨above, inner, below, rfl, hinner, hstart, hstop⟩
    rw [Nat.zero_add] at hstart
    exact ⟨above, inner, below, rfl, hinner, by rw [← hstart, ← hstop]⟩
  · rintro ⟨above, inner, below, rfl, hinner, rfl⟩
    exact ⟨above, inner, below, rfl, hinner, (Nat.zero_add _).symm, rfl⟩

/-- A block begins with the first mark or behind it. -/
lemma blockFrom_cons {m : ScopeMark} :
    BlockFrom number (m :: marks) w ↔
      (m = .opener ∧ w.start = number ∧ ∃ k, ClosesAt 0 marks k ∧ w.stop = number + 1 + k) ∨
        BlockFrom (number + 1) marks w := by
  constructor
  · rintro ⟨_ | ⟨first, above⟩, inner, below, heq, hinner, hstart, hstop⟩
    · obtain ⟨rfl, rfl⟩ := List.cons.inj heq
      refine .inl ⟨rfl, hstart, inner.length, ⟨inner, below, rfl, nested_iff.mp hinner, rfl⟩, ?_⟩
      rw [hstop, hstart, length_nil, Nat.add_zero]
    · obtain ⟨rfl, rfl⟩ := List.cons.inj heq
      refine .inr ⟨above, inner, below, rfl, hinner, ?_, hstop⟩
      rw [hstart, length_cons]
      omega
  · rintro (⟨rfl, hstart, _, ⟨inner, below, rfl, hinner, rfl⟩, hstop⟩ |
      ⟨above, inner, below, rfl, hinner, hstart, hstop⟩)
    · exact ⟨[], inner, below, rfl, nested_iff.mpr hinner, hstart, by rw [hstop, hstart]⟩
    · refine ⟨m :: above, inner, below, rfl, hinner, ?_, hstop⟩
      rw [hstart, length_cons]
      omega

/-- The window runs from a line in the stack to the closer that takes it off. -/
def ClosesOpen (stack : List Nat) (number : Nat) (marks : List ScopeMark) (w : Window) : Prop :=
  ∃ i k, stack[i]? = some w.start ∧ ClosesAt i marks k ∧ w.stop = number + k

lemma not_closesOpen_nil : ¬ClosesOpen [] number marks w := by
  rintro ⟨i, k, hstart, -⟩
  simp at hstart

lemma closesOpen_opener :
    ClosesOpen (number :: stack) (number + 1) marks w ↔
      (w.start = number ∧ ∃ k, ClosesAt 0 marks k ∧ w.stop = number + 1 + k) ∨
        ClosesOpen stack number (.opener :: marks) w := by
  constructor
  · rintro ⟨_ | i, k, hstart, hcloses, hstop⟩
    · exact .inl ⟨(Option.some.inj hstart).symm, k, hcloses, hstop⟩
    · refine .inr ⟨i, k + 1, hstart, ?_, by omega⟩
      exact (closesAt_cons (depthAfter_opener i) (by simp)).mpr ⟨k, hcloses, rfl⟩
  · rintro (⟨hstart, k, hcloses, hstop⟩ | ⟨i, k, hstart, hcloses, hstop⟩)
    · exact ⟨0, k, congrArg some hstart.symm, hcloses, hstop⟩
    · obtain ⟨k, hrest, rfl⟩ := (closesAt_cons (depthAfter_opener i) (by simp)).mp hcloses
      exact ⟨i + 1, k, hstart, hrest, by omega⟩

lemma closesOpen_closer :
    ClosesOpen (start :: stack) number (.closer :: marks) w ↔
      w = ⟨start, number⟩ ∨ ClosesOpen stack (number + 1) marks w := by
  have hfirst : ∀ k, ClosesAt 0 (.closer :: marks) k ↔ 0 = k := by
    intro k
    rw [← closerBelow_eq_some_iff, closerBelow, if_pos rfl, Option.some.injEq]
  constructor
  · rintro ⟨_ | i, k, hstart, hcloses, hstop⟩
    · obtain rfl := (hfirst k).mp hcloses
      obtain rfl := Option.some.inj hstart
      rw [Nat.add_zero] at hstop
      exact .inl (by rw [← hstop])
    · obtain ⟨k, hrest, rfl⟩ := (closesAt_cons (depthAfter_closer_succ i) (by simp)).mp hcloses
      exact .inr ⟨i, k, hstart, hrest, by omega⟩
  · rintro (rfl | ⟨i, k, hstart, hcloses, hstop⟩)
    · exact ⟨0, 0, rfl, (hfirst 0).mpr rfl, rfl⟩
    · refine ⟨i + 1, k + 1, hstart, ?_, by omega⟩
      exact (closesAt_cons (depthAfter_closer_succ i) (by simp)).mpr ⟨k, hcloses, rfl⟩

lemma closesOpen_neither :
    ClosesOpen stack number (.neither :: marks) w ↔ ClosesOpen stack (number + 1) marks w := by
  constructor
  · rintro ⟨i, k, hstart, hcloses, hstop⟩
    obtain ⟨k, hrest, rfl⟩ := (closesAt_cons (depthAfter_neither i) (by simp)).mp hcloses
    exact ⟨i, k, hstart, hrest, by omega⟩
  · rintro ⟨i, k, hstart, hcloses, hstop⟩
    refine ⟨i, k + 1, hstart, ?_, by omega⟩
    exact (closesAt_cons (depthAfter_neither i) (by simp)).mpr ⟨k, hcloses, rfl⟩

/-- A pair closes an open line, or it is a block of the marks to come. -/
lemma mem_paired_iff :
    w ∈ paired stack number marks ↔ ClosesOpen stack number marks w ∨ BlockFrom number marks w := by
  induction marks generalizing stack number with
  | nil => simp [paired, ClosesOpen, ClosesAt, BlockFrom]
  | cons m rest ih =>
    cases m with
    | opener =>
      rw [paired, ih, closesOpen_opener, blockFrom_cons, eq_self, true_and, or_left_comm, or_assoc]
    | closer =>
      have hblock : BlockFrom number (.closer :: rest) w ↔ BlockFrom (number + 1) rest w := by
        rw [blockFrom_cons]
        simp
      cases stack with
      | nil => simp [paired, ih, hblock, not_closesOpen_nil]
      | cons start stack =>
        rw [paired, mem_cons, ih, closesOpen_closer, hblock, or_assoc]
    | neither =>
      rw [paired, ih, closesOpen_neither, blockFrom_cons]
      simp

/-- **The pairs of a document are its blocks.** -/
lemma mem_paired_iff_isBlock : w ∈ paired [] 0 marks ↔ w.IsBlock marks := by
  rw [mem_paired_iff, blockFrom_zero, or_iff_right not_closesOpen_nil]

/-- A block is the window of its opener and of its closer. -/
lemma isBlock_iff_ofMarks? :
    w.IsBlock marks ↔ marks[w.start]? = some .opener ∧ marks[w.stop]? = some .closer ∧
      ofMarks? marks w.start = some w ∧ ofMarks? marks w.stop = some w := by
  constructor
  · rintro ⟨above, inner, below, rfl, hinner, rfl⟩
    have hstop : above.length + 1 + inner.length = (above ++ .opener :: inner).length := by
      rw [length_append, length_cons]
      omega
    have hmarks : above ++ .opener :: (inner ++ .closer :: below) =
        (above ++ .opener :: inner) ++ .closer :: below := by
      simp
    refine ⟨by simp, ?_, ?_, ?_⟩
    · rw [hmarks, hstop]
      simp
    · have hdown : closerFrom .opener (inner ++ .closer :: below) = some (inner.length + 1) :=
        closerFrom_eq_some_iff.mpr (.inr ⟨by simp, inner, below, rfl, hinner, rfl⟩)
      rw [ofMarks?_append, hdown, openerFrom]
      simp [Nat.add_assoc, Nat.add_comm 1]
    · have hup : openerFrom .closer (above ++ .opener :: inner).reverse = some (inner.length + 1) :=
        openerFrom_eq_some_iff.mpr (.inr ⟨by simp, above, inner, rfl, hinner, rfl⟩)
      rw [hmarks, hstop, ofMarks?_append, hup, closerFrom, ← hstop]
      simp only [Option.map_some, Option.getD_some, Option.some.injEq, Window.mk.injEq]
      omega
  -- The way up from the closer is enough to find the block.
  · rintro ⟨-, hcloser, -, hwindow⟩
    obtain ⟨hlt, hcloser⟩ := List.getElem?_eq_some_iff.mp hcloser
    obtain ⟨above, m, below, rfl, hlength⟩ := exists_append_of_lt hlt
    obtain rfl : m = .closer := by simpa [hlength] using hcloser
    rw [hlength, ofMarks?_append] at hwindow
    obtain ⟨up, hup, hw⟩ := Option.map_eq_some_iff.mp hwindow
    obtain ⟨-, outer, inner, rfl, hinner, rfl⟩ :=
      (openerFrom_eq_some_iff.mp hup).resolve_left (by simp)
    refine ⟨outer, inner, below, by simp, hinner, ?_⟩
    rw [← hw, Window.mk.injEq]
    simp only [closerFrom, length_append, length_cons, Option.map_some, Option.getD_some]
    omega

end Window

/-! ## The two stacks -/

/-- The mark as the stack of the regions sees it, or the stack of the bodies. -/
def FoldMark.side (isRegion : Bool) : FoldMark → ScopeMark
  | .regionStart _ => if isRegion then .opener else .neither
  | .regionEnd => if isRegion then .closer else .neither
  | .bodyStart => if isRegion then .neither else .opener
  | .bodyEnd => if isRegion then .neither else .closer
  | .plain => .neither

/-- The stack of the bodies sees the scope marks: a line that marks a region holds no code. -/
lemma FoldMark.side_ofLine (line : Text) : (ofLine line).side false = ScopeMark.ofLine line := by
  have hregion : foldOpen.holds line = true ∨ foldClose.holds line = true →
      ScopeMark.ofLine line = .neither := by
    intro h
    obtain ⟨hopener, hcloser⟩ := not_holds_of_isBlanks (isBlanks_codePart h)
    simp [ScopeMark.ofLine, hopener, hcloser]
  rw [FoldMark.ofLine]
  split
  case h_1 found hfound =>
    have hopen : foldOpen.holds line = true := Option.isSome_of_eq_some hfound
    rw [hregion (.inl hopen)]
    rfl
  case h_2 =>
    split
    case isTrue hclose =>
      rw [hregion (.inr hclose)]
      rfl
    case isFalse =>
      rw [ScopeMark.ofLine]
      dsimp only
      split
      · rfl
      · split <;> rfl

namespace FoldRange

/-- The lines from the first to the last. -/
def window (r : FoldRange) : Window :=
  ⟨r.start, r.stop⟩

/-- Each stack pairs lines as if it were alone. -/
lemma map_window_scan (isRegion : Bool) (regions : List (Nat × Text)) (bodies : List Nat)
    (number : Nat) (marks : List FoldMark) :
    ((scan regions bodies number marks).filter (·.isRegion == isRegion)).map window =
      Window.paired (if isRegion then regions.map (·.1) else bodies) number
        (marks.map (FoldMark.side isRegion)) := by
  induction marks generalizing regions bodies number with
  | nil => rfl
  | cons m rest ih =>
    cases m with
    | regionStart | bodyStart | plain =>
      rw [scan, ih]
      cases isRegion <;> rfl
    | regionEnd =>
      cases regions with
      | nil =>
        rw [scan, ih]
        cases isRegion <;> rfl
      | cons region regions =>
        cases isRegion with
        | true =>
          rw [scan, filter_cons_of_pos rfl, map_cons, ih]
          rfl
        | false =>
          rw [scan, filter_cons_of_neg (by simp), ih]
          rfl
    | bodyEnd =>
      cases bodies with
      | nil =>
        rw [scan, ih]
        cases isRegion <;> rfl
      | cons start bodies =>
        cases isRegion with
        | true =>
          rw [scan, filter_cons_of_neg (by simp), ih]
          rfl
        | false =>
          rw [scan, filter_cons_of_pos rfl, map_cons, ih]
          rfl

end FoldRange

/-! ## The folds of a document -/

/-- The folds that regions make, or bodies, are what their stack pairs, in another order. -/
lemma perm_map_window_folds (isRegion : Bool) (text : Text) :
    (((folds text).filter (·.isRegion == isRegion)).map FoldRange.window).Perm
      (Window.paired [] 0 (text.lines.map fun line => (FoldMark.ofLine line).side isRegion)) := by
  have hscan := FoldRange.map_window_scan isRegion [] [] 0 (text.lines.map FoldMark.ofLine)
  rw [map_nil, ite_self, map_map] at hscan
  exact (((mergeSort_perm _ _).filter _).map _).trans (.of_eq hscan)

/-- **Folds are the blocks of their marks.** -/
lemma exists_mem_folds_iff {isRegion : Bool} {text : Text} {w : Window} :
    (∃ r ∈ folds text, r.isRegion = isRegion ∧ r.window = w) ↔
      w.IsBlock (text.lines.map fun line => (FoldMark.ofLine line).side isRegion) := by
  rw [← Window.mem_paired_iff_isBlock, ← (perm_map_window_folds isRegion text).mem_iff]
  simp [and_assoc]

lemma pairwise_clear_folds (isRegion : Bool) (text : Text) :
    ((folds text).filter (·.isRegion == isRegion)).Pairwise
      fun a b => a.window.Clear b.window := by
  have hpaired : (Window.paired [] 0 (text.lines.map fun line =>
      (FoldMark.ofLine line).side isRegion)).Pairwise Window.Clear :=
    Window.pairwise_paired (pairwise_singleton _ _)
  rw [← pairwise_map (f := FoldRange.window)]
  exact ((perm_map_window_folds isRegion text).pairwise_iff Window.Clear.symm).mpr hpaired

lemma start_lt_stop_of_mem_folds {text : Text} {r : FoldRange} (h : r ∈ folds text) :
    r.start < r.stop := by
  obtain ⟨above, inner, below, -, -, hwindow⟩ := exists_mem_folds_iff.mp ⟨r, h, rfl, rfl⟩
  rw [FoldRange.window, Window.mk.injEq] at hwindow
  omega

/-- Folds are listed by their first line, then by their last. -/
lemma pairwise_folds (text : Text) :
    (folds text).Pairwise fun a b => a.start < b.start ∨ a.start = b.start ∧ a.stop ≤ b.stop := by
  have hle : ∀ a b : FoldRange, a.le b = true ↔
      a.start < b.start ∨ a.start = b.start ∧ a.stop ≤ b.stop := by
    simp [FoldRange.le]
  have hsorted : (folds text).Pairwise fun a b => a.le b = true := by
    refine List.pairwise_mergeSort (fun a b c hab hbc => ?_) (fun a b => ?_) _
    · rw [hle] at hab hbc ⊢
      omega
    · rw [Bool.or_eq_true, hle, hle]
      omega
  exact hsorted.imp fun h => (hle _ _).mp h

/-- The line with a number has a shape. -/
def HasShape (lines : List Text) (rule : LineRule) (number : Nat) : Prop :=
  ∃ line, lines[number]? = some line ∧ rule.holds (Code.codePart line) = true

lemma hasShape_opener_iff {lines : List Text} {number : Nat} :
    HasShape lines .scopeOpener number ↔ (lines.map ScopeMark.ofLine)[number]? = some .opener := by
  simp [HasShape, ScopeMark.ofLine_eq_opener]

lemma hasShape_closer_iff {lines : List Text} {number : Nat} :
    HasShape lines .scopeCloser number ↔ (lines.map ScopeMark.ofLine)[number]? = some .closer := by
  have hmark : ∀ line, ScopeMark.ofLine line = .closer ↔
      scopeCloser.holds (Code.codePart line) = true := by
    intro line
    by_cases hopener : scopeOpener.holds (Code.codePart line) = true
    · simp [ScopeMark.ofLine, hopener, not_holds_scopeCloser hopener]
    · simp [ScopeMark.ofLine, hopener]
  simp [HasShape, hmark]

/-- **Folds pair openers with their closers.**  A body is folded from `h` to `e` exactly if `h` is
an opener, `e` is a closer, and the lines from `h` to `e` are the window of the one and of the
other.  Folds of regions, and likewise folds of bodies, lie above one another or inside one another
and share no end.  Each ends below its first line, and they are listed by their first line, then by
their last. -/
theorem folds_pair_openers_with_closers (text : Text) :
    (∀ h e, (∃ r ∈ folds text, r.isRegion = false ∧ r.window = ⟨h, e⟩) ↔
      HasShape text.lines .scopeOpener h ∧ HasShape text.lines .scopeCloser e ∧
        Window.around? text.lines h = some ⟨h, e⟩ ∧ Window.around? text.lines e = some ⟨h, e⟩) ∧
    (∀ isRegion, ((folds text).filter (·.isRegion == isRegion)).Pairwise
      fun a b => a.window.Clear b.window) ∧
    (∀ r ∈ folds text, r.start < r.stop) ∧
    (folds text).Pairwise fun a b => a.start < b.start ∨ a.start = b.start ∧ a.stop ≤ b.stop := by
  refine ⟨fun h e => ?_, fun isRegion => pairwise_clear_folds isRegion text,
    fun r hr => start_lt_stop_of_mem_folds hr, pairwise_folds text⟩
  have hmarks : (text.lines.map fun line => (FoldMark.ofLine line).side false) =
      text.lines.map ScopeMark.ofLine :=
    map_congr_left fun line _ => FoldMark.side_ofLine line
  rw [exists_mem_folds_iff, hmarks, Window.isBlock_iff_ofMarks?, ← hasShape_opener_iff,
    ← hasShape_closer_iff]
  rfl

/-- The window of an opener that is never closed ends with the last line, here the closer of another
block.  There is no fold of these lines. -/
theorem no_fold_of_unclosed_window :
    let text : Text := "DEF a()\nDEF b()\nEND".toList
    (HasShape text.lines .scopeOpener 0 ∧ HasShape text.lines .scopeCloser 2 ∧
      Window.around? text.lines 0 = some ⟨0, 2⟩) ∧
    ¬∃ r ∈ folds text, r.isRegion = false ∧ r.window = ⟨0, 2⟩ := by
  intro text
  have hlines : text.lines = ["DEF a()".toList, "DEF b()".toList, "END".toList] := by
    decide +kernel
  have hscan : ∀ r ∈ folds text, r = ⟨1, 2, false, none⟩ := by
    intro r hr
    have hscan : FoldRange.scan [] [] 0 (text.lines.map FoldMark.ofLine) =
        [⟨1, 2, false, none⟩] := by
      decide +kernel
    rw [folds, mem_mergeSort, hscan, mem_singleton] at hr
    exact hr
  refine ⟨⟨⟨"DEF a()".toList, ?_, ?_⟩, ⟨"END".toList, ?_, ?_⟩, ?_⟩, ?_⟩
  · rw [hlines]
    rfl
  · decide +kernel
  · rw [hlines]
    rfl
  · decide +kernel
  · decide +kernel
  · rintro ⟨r, hr, -, hwindow⟩
    rw [hscan r hr] at hwindow
    cases hwindow

end KrlWorkbench
