import KrlWorkbench.Proofs.Renaming.Uses

/-!
# Whole words of a document

A word of the code of a line is a whole word of the document: what follows the code is a comment,
and lines are parted by breaks, and neither lengthens a word (`StandsIn.of_mem_lines`).  A search
of the document for a name therefore finds every spelling of the name in the code
(`isIn_of_standsIn`).  If it finds none, renaming another spelling of the name changes nothing
(`renamed_self`).
-/

namespace KrlWorkbench

open List Text

variable {a b line x y : Text} {links : List Link} {p : Pattern}

/-- The text holds `w` as a whole word. -/
def StandsIn (w text : Text) : Prop :=
  ∃ a b, text = a ++ (w ++ b) ∧ endsWord a = false ∧ startsWord b = false

namespace StandsIn

variable {w text : Text}

lemma append_left (h : StandsIn w text) {lead : Text} (hlead : endsWord lead = false) :
    StandsIn w (lead ++ text) := by
  obtain ⟨a, b, rfl, ha, hb⟩ := h
  refine ⟨lead ++ a, b, by simp, ?_, hb⟩
  by_cases hnil : a = []
  · rwa [hnil, append_nil]
  · rwa [endsWord_append hnil]

lemma append_right (h : StandsIn w text) {tail : Text} (htail : startsWord tail = false) :
    StandsIn w (text ++ tail) := by
  obtain ⟨a, b, rfl, ha, hb⟩ := h
  refine ⟨a, b ++ tail, by simp, ha, ?_⟩
  cases b with
  | nil => exact htail
  | cons => exact hb

lemma of_mem_links {w' : Text} (h : Aligned x y links)
    (hmem : .word w w' ∈ links) : StandsIn w (oldText links) := by
  obtain ⟨l, l', rfl⟩ := append_of_mem hmem
  refine ⟨oldText l, oldText l', by simp, ?_, ?_⟩
  · rcases eq_nil_or_concat l with rfl | ⟨l, link, rfl⟩
    · rfl
    · rw [concat_eq_append, append_assoc] at h
      -- The link in front is not a word, for two words do not touch.
      cases h.append_right with
      | sep hc => simpa [endsWord] using hc
      | word _ _ hnext => simp [Link.isWord] at hnext
  · cases h.append_right with
    | word _ _ hnext h => rw [h.startsWord_old, hnext]

lemma of_codePart (h : StandsIn w (Code.codePart line)) : StandsIn w line := by
  obtain ⟨comment, hline, hcomment⟩ := Code.exists_comment false line
  rw [← hline]
  refine h.append_right ?_
  rcases hcomment with rfl | ⟨rest, rfl⟩
  · rfl
  · rw [startsWord_cons]
    decide

lemma of_mem_lines (h : StandsIn w line) (hline : line ∈ text.lines) :
    StandsIn w text := by
  induction lined text with
  | last hl =>
    rw [lines_of_noBreak hl, mem_singleton] at hline
    rwa [← hline]
  | @more l brk rest hl hbrk _ ih =>
    rw [lines_append_break hl hbrk] at hline
    rcases mem_cons.mp hline with rfl | hline
    · refine h.append_right ?_
      rcases hbrk with rfl | rfl | ⟨rfl, -⟩ <;> rfl
    · rw [← append_assoc]
      refine (ih hline).append_left ?_
      rcases hbrk with rfl | rfl | ⟨rfl, -⟩ <;> rw [endsWord_append (by simp)] <;> rfl

end StandsIn

/-! ## The search of a text -/

namespace Pattern

lemma isSome_findFrom_of_matchAt (lead : Text)
    (h : (p.matchAt (between (lead ++ a) b)).isSome = true) :
    (p.findFrom (a ++ b) (between lead (a ++ b))).isSome = true := by
  induction a generalizing lead with
  | nil =>
    rw [append_nil] at h
    obtain ⟨⟨m, there⟩, hmatch⟩ := Option.isSome_iff_exists.mp h
    cases b <;> simp [findFrom, hmatch]
  | cons c a ih =>
    rw [cons_append, findFrom]
    split
    case h_1 => rfl
    case h_2 =>
      rw [past_between]
      exact ih (lead ++ [c]) (by simpa using h)

lemma isIn_of_matchAt (h : (p.matchAt (between a b)).isSome = true) :
    p.isIn (a ++ b) = true :=
  isSome_findFrom_of_matchAt [] h

lemma isIn_of_fits {u v text : Text} {found : Groups} (h : Fits p (between [] text) u v found)
    (htext : text = u ++ v) : p.isIn text = true :=
  isIn_of_matchAt (a := []) (isSome_run_of_fits h htext rfl)

/-- A name that stands in a text as a whole word, in whatever case, is found. -/
lemma isIn_of_standsIn {w text : Text} (hx : isIdentifier x = true) (hw : sameWord x w = true)
    (h : StandsIn w text) : (wholeWord x).isIn text = true := by
  obtain ⟨a, b, rfl, ha, hb⟩ := h
  refine isIn_of_matchAt ?_
  rw [(matchAt_wholeWord_iff hx).mpr ⟨w, b, rfl, hw, ha, hb, rfl, rfl⟩]
  rfl

end Pattern

/-! ## Names without a use -/

/-- Links in which no word equals `x` change nothing. -/
lemma newText_eq_oldText (h : Aligned x y links)
    (hfree : ∀ w w', .word w w' ∈ links → sameWord x w = false) :
    newText links = oldText links := by
  induction h with
  | nil => rfl
  | sep _ _ ih =>
    rw [newText_sep, oldText_sep, ih fun w w' hmem => hfree w w' (mem_cons_of_mem _ hmem)]
  | @word w w' links _ hnew _ _ ih =>
    obtain rfl : w' = w := by
      rcases hnew with rfl | ⟨hsame, -⟩
      · rfl
      · simp [hfree w w' mem_cons_self] at hsame
    rw [newText_word, oldText_word, ih fun w w' hmem => hfree w w' (mem_cons_of_mem _ hmem)]

/-- Where a name does not stand in a text, renaming it leaves the text as it is. -/
lemma renamed_self (y : Text) {text : Text}
    (h : ∀ w, StandsIn w text → sameWord x w = false) : Renamed x y text text := by
  obtain ⟨links, haligned, rfl, hthorough⟩ := exists_links x y false false text
  refine ⟨links, haligned, hthorough, rfl, newText_eq_oldText haligned fun w w' hmem => ?_⟩
  exact h w (.of_mem_links haligned hmem)

end KrlWorkbench
