import KrlWorkbench.Proofs.Scope.NamedLines

/-!
# Closed blocks that do not nest

In a document whose blocks are closed one after another, openers and closers take turns.  The header
of a routine is an opener (`holds_scopeOpener_of_ofHeader?`), so the lines behind it are plain up to
the closer, and there the window of the header ends (`Window.around?_of_takeTurns`).
-/

namespace KrlWorkbench

open List LineRule ScopeMark Text

/-! ## Headers are openers -/

namespace LineRule

open Pattern

lemma holds_scopeOpener {k : String} (hk : k = "DEF" ∨ k = "DEFFCT") {u v : Text} {found : Groups}
    (h : Fits (indent ++ maybe 1 "GLOBAL" ++ keyword k ++ gap) (between [] (u ++ v)) u v found) :
    scopeOpener.holds (u ++ v) = true := by
  obtain ⟨front, s, _, _, rfl, -, hfront, hgap⟩ := h.exists_of_append
  obtain ⟨lead, w, _, f, rfl, -, hlead, hword⟩ := hfront.exists_of_append
  obtain ⟨margin, global, f', _, rfl, -, hindent, hmaybe⟩ := hlead.exists_of_append
  obtain ⟨f'', hskip⟩ := Declaration.fits_skip_of_maybe hmaybe
  have hw : IsWord w := by
    refine isWord_of_sameName ?_ hword.sameWord_of_word.1
    rcases hk with rfl | rfl <;> decide
  have hblank : startsWord (s ++ v) = false :=
    startsWord_blanks_append hgap.forall_of_gap.1 hgap.forall_of_gap.2 v
  have hkeyword : Fits (anyKeyword ["DEF", "DEFFCT", "DEFDAT"])
      ((between [] (margin ++ global ++ w ++ s ++ v)).skip (margin ++ global) (w ++ (s ++ v)))
      w (s ++ v) f := by
    rcases hk with rfl | rfl
    · exact .altLeft hword
    · exact .altRight (.altLeft hword)
  have hboundary : Fits .wordBoundary
      ((between [] (margin ++ global ++ w ++ s ++ v)).skip (margin ++ global ++ w) (s ++ v)) []
      (s ++ v) [] := by
    refine .wordBoundary ?_
    rw [isWordBoundary_skip hw, hblank]
    rfl
  have hall : Fits scopeOpener.pattern (between [] (margin ++ global ++ w ++ s ++ v))
      (margin ++ global ++ w ++ []) (s ++ v) _ :=
    .seq (.seq (.seq hindent hskip) (.group 1 hkeyword)) hboundary
  exact isIn_of_fits hall (by simp)

end LineRule

/-- **The header of a routine is an opener.** -/
lemma Routine.holds_scopeOpener_of_ofHeader? {text code : Text} {line : Nat} {r : Routine}
    (h : ofHeader? text code line = some r) : scopeOpener.holds code = true := by
  rw [ofHeader?] at h
  split at h
  case h_1 m hm =>
    obtain ⟨u, v, rfl, hfits⟩ := Pattern.exists_fits_of_find? rfl hm
    obtain ⟨u, _, _, _, rfl, -, hfits, -⟩ := hfits.exists_of_append
    obtain ⟨u, _, _, _, rfl, -, hfits, -⟩ := hfits.exists_of_append
    obtain ⟨u, _, _, _, rfl, -, hfits, -⟩ := hfits.exists_of_append
    obtain ⟨u, _, _, _, rfl, -, hfits, -⟩ := hfits.exists_of_append
    simp only [append_assoc] at hfits ⊢
    exact holds_scopeOpener (.inr rfl) hfits
  case h_2 =>
    obtain ⟨m, hm, -⟩ := Option.bind_eq_some_iff.mp h
    obtain ⟨u, v, rfl, hfits⟩ := Pattern.exists_fits_of_find? rfl hm
    obtain ⟨u, _, _, _, rfl, -, hfits, -⟩ := hfits.exists_of_append
    obtain ⟨u, _, _, _, rfl, -, hfits, -⟩ := hfits.exists_of_append
    simp only [append_assoc] at hfits ⊢
    exact holds_scopeOpener (.inl rfl) hfits

/-! ## Openers and closers in turn -/

namespace ScopeMark

/-- Openers and closers take turns, where `inside` tells whether a block is open, and none is open
at the end. -/
def takeTurns : Bool → List ScopeMark → Bool
  | inside, [] => !inside
  | inside, .opener :: rest => !inside && takeTurns true rest
  | inside, .closer :: rest => inside && takeTurns false rest
  | inside, .neither :: rest => takeTurns inside rest

lemma ofLine_eq_opener {line : Text} :
    ofLine line = .opener ↔ scopeOpener.holds (Code.codePart line) = true := by
  rw [ofLine]
  split
  case isTrue h => simp [h]
  case isFalse h =>
    split <;> simp [h]

/-- A line that is no opener heads nothing, and it closes if it is a closer. -/
lemma of_ofLine_ne_opener {line : Text} (h : ofLine line ≠ .opener) (text : Text) (number : Nat) :
    Routine.ofHeader? text (Code.codePart line) number = none ∧
      (scopeCloser.holds (Code.codePart line) = true ↔ ofLine line = .closer) := by
  have hopener : ¬scopeOpener.holds (Code.codePart line) = true :=
    fun hopener => h (ofLine_eq_opener.mpr hopener)
  constructor
  · by_contra hsome
    obtain ⟨r, hr⟩ := Option.ne_none_iff_exists'.mp hsome
    exact hopener (Routine.holds_scopeOpener_of_ofHeader? hr)
  · rw [ofLine, if_neg hopener]
    split
    case isTrue hcloser => simp [hcloser]
    case isFalse hcloser => simp [hcloser]

variable {inside : Bool} {marks rest : List ScopeMark}

/-- Behind an opener the next mark is its closer. -/
lemma exists_closer_of_takeTurns (h : takeTurns inside (marks ++ .opener :: rest) = true) :
    ∃ body behind, rest = body ++ .closer :: behind ∧ ∀ m ∈ body, m = .neither := by
  have hopen : takeTurns true rest = true := by
    induction marks generalizing inside with
    | nil => exact (Bool.and_eq_true_iff.mp h).2
    | cons m marks ih =>
      cases m with
      | opener => exact ih (Bool.and_eq_true_iff.mp h).2
      | closer => exact ih (Bool.and_eq_true_iff.mp h).2
      | neither => exact ih h
  clear h
  induction rest with
  | nil => simp [takeTurns] at hopen
  | cons m rest ih =>
    cases m with
    | opener => simp [takeTurns] at hopen
    | closer => exact ⟨[], rest, rfl, by simp⟩
    | neither =>
      obtain ⟨body, behind, rfl, hbody⟩ := ih hopen
      exact ⟨.neither :: body, behind, rfl, by simpa using hbody⟩

end ScopeMark

namespace Window

lemma closerBelow_plain {body behind : List ScopeMark} (h : ∀ m ∈ body, m = .neither) :
    closerBelow 0 (body ++ .closer :: behind) = some body.length := by
  induction body with
  | nil => rfl
  | cons m body ih =>
    obtain rfl := h m mem_cons_self
    rw [cons_append, closerBelow, ih (forall_mem_cons.mp h).2]
    rfl

/-- **The window of an opener ends with the next closer**, if openers and closers take turns. -/
lemma around?_of_takeTurns {lines : List Text} {number : Nat} {line : Text}
    (hturns : takeTurns false (lines.map ofLine) = true)
    (hline : lines[number]? = some line) (hopener : ofLine line = .opener) :
    ∃ body closer below, lines.drop (number + 1) = body ++ closer :: below ∧
      (∀ l ∈ body, ofLine l = .neither) ∧ ofLine closer = .closer ∧
      around? lines number = some ⟨number, number + (body.length + 1)⟩ := by
  obtain ⟨hlt, rfl⟩ := List.getElem?_eq_some_iff.mp hline
  have hsplit : lines.map ofLine = (lines.take number).map ofLine ++
      .opener :: (lines.drop (number + 1)).map ofLine := by
    rw [← hopener, ← map_cons, getElem_cons_drop, ← map_append, take_append_drop]
  rw [hsplit] at hturns
  obtain ⟨body, behind, hrest, hbody⟩ := exists_closer_of_takeTurns hturns
  obtain ⟨plain, others, hdrop, rfl, hothers⟩ := map_eq_append_iff.mp hrest
  obtain ⟨closer, below, rfl, hcloser, rfl⟩ := map_eq_cons_iff.mp hothers
  refine ⟨plain, closer, below, hdrop, ?_, hcloser, ?_⟩
  · intro l hl
    exact hbody _ (mem_map_of_mem hl)
  · have hlength : ((lines.take number).map ofLine).length = number := by
      rw [length_map, length_take_of_le hlt.le]
    have hmarks : (lines.map ofLine).drop number =
        .opener :: (plain.map ofLine ++ .closer :: below.map ofLine) := by
      rw [hsplit, hrest, drop_left' hlength]
    rw [around?, ofMarks?, hmarks]
    simp only [openerFrom, closerFrom, closerBelow_plain hbody, Option.map_some, Option.getD_some,
      length_map, Nat.sub_zero]

end Window

end KrlWorkbench
