import KrlWorkbench.Proofs.Finding.KindLines

/-!
# The search for the partner of a block keyword

The highlights look for the partner of a block keyword line by line and take one keyword from each
line: the first of its kind on the way down, the last on the way up.  As a search among marks it is
the one for the closer of a window (`Highlight.partnerIn_eq`).

What it misses is counted here.  On the way down, every keyword of a line but the first puts the
depth off by one, always to the same side (`depthAfter_firstMark`), so two lines never make up for
each other (`depthAfter_firstMarks`).  In lines with at most one keyword of the kind nothing is
missed, and the marks met on the way up are those of the way down turned round
(`marks_of_length_le_one`).
-/

namespace KrlWorkbench

open List Text ScopeMark

/-! ## The search among marks -/

namespace Highlight

/-- The mark that the search takes from a line of code. -/
def lineMark (opening closing : Pattern) (code : Text) : ScopeMark :=
  if opening.isIn code then .opener
  else if closing.isIn code then .closer
  else .neither

/-- **The search for a partner** is the search for the first closer at depth zero. -/
lemma partnerIn_eq (opening closing : Pattern) (d : Nat) (lines : List Text) :
    partnerIn opening closing d lines =
      Window.closerBelow d (lines.map fun line => lineMark opening closing (Code.clean line)) := by
  induction lines generalizing d with
  | nil => rfl
  | cons line lines ih =>
    rw [map_cons, partnerIn.eq_def, lineMark]
    dsimp only
    split
    case isTrue => rw [Window.closerBelow, ih]
    case isFalse =>
      split
      case isTrue =>
        cases d with
        | zero => rfl
        | succ d =>
          dsimp only
          rw [ih, Window.closerBelow, if_neg (Nat.succ_ne_zero d), Nat.add_sub_cancel]
      case isFalse => rw [Window.closerBelow, ih]

end Highlight

/-! ## One mark a line -/

lemma ScopeMark.depthAfter_replicate_closer {d e n : Nat} :
    depthAfter d (List.replicate n .closer) = some e ↔ d = e + n := by
  induction n generalizing d with
  | zero => simp
  | succ n ih =>
    rw [replicate_succ]
    cases d with
    | zero => simp
    | succ d => rw [depthAfter_closer_succ, ih, ← Nat.add_assoc, Nat.add_right_cancel_iff]

namespace SourceLine

variable {kind : BlockKind} {line : SourceLine} {body : List SourceLine}

/-- What the search downward takes from a line. -/
def firstMark (kind : BlockKind) (line : SourceLine) : ScopeMark :=
  Highlight.lineMark kind.openerPattern kind.closerPattern line.code

/-- What the search upward takes from a line, where closers are what has to be undone. -/
def lastMark (kind : BlockKind) (line : SourceLine) : ScopeMark :=
  Highlight.lineMark kind.closerPattern kind.openerPattern line.code

lemma isIn_closerPattern_iff :
    kind.closerPattern.isIn line.code = true ↔
      (kind.closerPattern.occurrences line.code).length ≠ 0 := by
  rw [Pattern.isIn_iff_occurrences_ne_nil, ne_eq, ne_eq, length_eq_zero_iff]

lemma firstMark_eq (kind : BlockKind) (line : SourceLine) :
    line.firstMark kind = ((line.keywords kind).map BlockEvent.mark).head?.getD .neither := by
  rw [firstMark, Highlight.lineMark, map_mark_keywords]
  by_cases hopener : kind.openerPattern.isIn line.code = true
  · rw [if_pos hopener, if_pos hopener]
    rfl
  · simp only [if_neg hopener, isIn_closerPattern_iff, nil_append, head?_replicate]
    split <;> simp_all

lemma lastMark_eq (kind : BlockKind) (line : SourceLine) :
    line.lastMark kind =
      (((line.keywords kind).map BlockEvent.mark).getLast?.getD .neither).turned := by
  rw [lastMark, Highlight.lineMark, map_mark_keywords]
  simp only [isIn_closerPattern_iff, getLast?_append, getLast?_replicate]
  by_cases hcloser : (kind.closerPattern.occurrences line.code).length = 0
  · rw [if_neg (by simpa using hcloser), if_pos hcloser]
    split <;> rfl
  · rw [if_pos hcloser, if_neg hcloser]
    rfl

/-- Each keyword but the first puts the depth off by one. -/
lemma depthAfter_firstMark {d d' e e' : Nat} (h : depthAfter d [line.firstMark kind] = some d')
    (h' : depthAfter e ((line.keywords kind).map BlockEvent.mark) = some e') :
    d' + e = d + e' + ((line.keywords kind).length - 1) := by
  have hlength : ((line.keywords kind).map BlockEvent.mark).length = (line.keywords kind).length :=
    length_map _
  rw [firstMark_eq] at h
  rw [map_mark_keywords] at h h' hlength
  generalize (kind.closerPattern.occurrences line.code).length = n at h h' hlength
  by_cases hopener : kind.openerPattern.isIn line.code = true
  · rw [if_pos hopener] at h h' hlength
    have hdepth : d + 1 = d' := by simpa using h
    have hcount : n + 1 = (line.keywords kind).length := by simpa using hlength
    rw [singleton_append, depthAfter_opener, depthAfter_replicate_closer] at h'
    omega
  · rw [if_neg hopener, nil_append] at h h' hlength
    have hcount : n = (line.keywords kind).length := by simpa using hlength
    rw [depthAfter_replicate_closer] at h'
    cases n with
    | zero =>
      have hdepth : d = d' := by simpa using h
      omega
    | succ n =>
      cases d with
      | zero => simp [replicate_succ] at h
      | succ d =>
        have hdepth : d = d' := by simpa [replicate_succ] using h
        omega

/-- **The search downward counts too deep**, unless it leaves out no keyword. -/
lemma depthAfter_firstMarks {d d' e e' : Nat}
    (h : depthAfter d (body.map (firstMark kind)) = some d')
    (h' : depthAfter e ((body.flatMap (·.keywords kind)).map BlockEvent.mark) = some e') :
    d + e' ≤ d' + e ∧ (d + e' = d' + e → ∀ line ∈ body, (line.keywords kind).length ≤ 1) := by
  induction body generalizing d e with
  | nil =>
    simp only [map_nil, flatMap_nil, depthAfter_nil, Option.some.injEq] at h h'
    exact ⟨by omega, by simp⟩
  | cons line body ih =>
    rw [map_cons, ← singleton_append] at h
    rw [flatMap_cons, map_append] at h'
    obtain ⟨m, hfirst, hrest⟩ := exists_depthAfter_of_append h
    obtain ⟨n, hline, hlines⟩ := exists_depthAfter_of_append h'
    have hstep := depthAfter_firstMark hfirst hline
    obtain ⟨hle, hsingle⟩ := ih hrest hlines
    exact ⟨by omega, fun heq => forall_mem_cons.mpr ⟨by omega, hsingle (by omega)⟩⟩

/-- A line with at most one keyword, and what the searches take from it. -/
lemma marks_of_length_le_one (h : (line.keywords kind).length ≤ 1) :
    line.lastMark kind = (line.firstMark kind).turned ∧
      ∀ d, depthAfter d [line.firstMark kind] =
        depthAfter d ((line.keywords kind).map BlockEvent.mark) := by
  rw [firstMark_eq, lastMark_eq]
  cases hkeywords : line.keywords kind with
  | nil => exact ⟨rfl, fun d => by simp⟩
  | cons e more =>
    cases more with
    | nil => exact ⟨rfl, fun d => rfl⟩
    | cons e' more => simp [hkeywords] at h

/-- In lines with at most one keyword each the search downward counts right. -/
lemma depthAfter_map_firstMark (h : ∀ line ∈ body, (line.keywords kind).length ≤ 1) (d : Nat) :
    depthAfter d (body.map (firstMark kind)) =
      depthAfter d ((body.flatMap (·.keywords kind)).map BlockEvent.mark) := by
  induction body generalizing d with
  | nil => rfl
  | cons line body ih =>
    rw [map_cons, ← singleton_append, flatMap_cons, map_append, depthAfter_append,
      depthAfter_append, (marks_of_length_le_one (h line mem_cons_self)).2]
    refine congrArg _ (funext fun e => ?_)
    exact ih (forall_mem_cons.mp h).2 e

end SourceLine

end KrlWorkbench
