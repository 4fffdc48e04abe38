import KrlWorkbench.Editing.Layout
import KrlWorkbench.Proofs.Code.Tokens
import KrlWorkbench.Proofs.Text.EditApplication
import KrlWorkbench.Proofs.Text.Trim

/-!
# Formatting is stable

A document that has been laid out is left alone by a second pass, whatever it was made from and
whatever the options.  The argument has three layers.

* Raising keywords is idempotent (`raiseKeywords_raiseKeywords`): it changes nothing but the case
  of letters, so it finds the same identifiers at the same places again, and these are in upper
  case already.
* Laying out lines is idempotent from every state (`layLines_layLines`): the second pass meets
  each line in the state in which the first one left it.  A blank line that the first pass put in
  front of a line stands there as a blank line of its own for the second, and what the first pass
  remembers between the two is forgotten at that line in both.
* The lines of the result are the lines that were laid out (`linesOf_flatMap`).
-/

namespace KrlWorkbench.Layout

open List Text Token

variable {line l text a b : Text} {o : Options} {s : State}

/-! ## Raising keywords -/

/-- The tokens of a line that are written in upper case. -/
def raisedTokens (line : Text) : List Token :=
  (tokens (Code.clean line)).filter isRaised

/-- Raising is a replacement of the tokens by their upper case. -/
lemma raise_eq_substitute {tokens : List Token} (h : ∀ t ∈ tokens, t.stop = t.capture.stop)
    (here : Nat) (rest : Text) :
    raise here rest tokens = substitute (fun p => upper p.text) here rest
      (tokens.map capture) := by
  induction tokens generalizing here rest with
  | nil => rfl
  | cons t tokens ih =>
    have ht : t.stop = t.capture.stop := h t mem_cons_self
    rw [raise, ih (forall_mem_cons.mp h).2, map_cons, substitute,
      ← ht, append_assoc]
    rfl

lemma stop_eq_of_mem_raisedTokens {t : Token} (h : t ∈ raisedTokens line) :
    t.stop = t.capture.stop :=
  (stop_eq_and_isIdentifier_of_mem_scan (mem_filter.mp h).1).1

lemma raiseKeywords_eq_substitute (line : Text) :
    raiseKeywords line = substitute (fun p => upper p.text) 0 line
      ((raisedTokens line).map capture) :=
  raise_eq_substitute (fun _ => stop_eq_of_mem_raisedTokens) 0 line

lemma placed_raisedTokens (line : Text) : Placed 0 line ((raisedTokens line).map capture) :=
  (placed_tokens_clean line).sublist (filter_sublist.map _)

lemma upper_raiseKeywords (line : Text) : upper (raiseKeywords line) = upper line := by
  rw [raiseKeywords_eq_substitute]
  refine map_substitute upperChar (placed_raisedTokens line) ?_
  intro p _
  exact upper_upper p.text

lemma isRaised_inUpper (t : Token) : isRaised t.inUpper = isRaised t := by
  rw [isRaised, isRaised, isQualified_inUpper, Keyword.isKeyword, Keyword.isKeyword,
    inUpper, upper_upper]

/-- Lines that differ in case only have the same tokens to raise, up to case. -/
lemma map_inUpper_raisedTokens (line : Text) :
    (raisedTokens line).map inUpper = (tokens (Code.clean (upper line))).filter isRaised := by
  rw [raisedTokens, Code.clean_upper, tokens_upper, filter_map]
  simp [Function.comp_def, isRaised_inUpper]

lemma map_place_raisedTokens_of_upper_eq (h : upper a = upper b) :
    (raisedTokens a).map (fun t => (t.start, byteLength t.text)) =
      (raisedTokens b).map fun t => (t.start, byteLength t.text) := by
  have hplace (line : Text) : (raisedTokens line).map (fun t => (t.start, byteLength t.text)) =
      ((raisedTokens line).map inUpper).map fun t => (t.start, byteLength t.text) := by
    simp [inUpper]
  rw [hplace, hplace, map_inUpper_raisedTokens, map_inUpper_raisedTokens, h]

/-- **Raising keywords is idempotent.** -/
lemma raiseKeywords_raiseKeywords (line : Text) :
    raiseKeywords (raiseKeywords line) = raiseKeywords line := by
  set raised := raiseKeywords line with hraised
  -- The tokens of the first pass, written in upper case, stand where they stood.
  have hold : Placed 0 raised
      ((raisedTokens line).map fun t => (⟨t.start, upper t.text⟩ : Capture)) := by
    have h := (placed_raisedTokens line).map_substitute (f := fun p => upper p.text)
      fun p _ => byteLength_upper p.text
    rw [← raiseKeywords_eq_substitute] at h
    simpa [Function.comp_def, capture] using h
  -- The second pass finds its tokens at these places, so they are these tokens.
  have heq : (raisedTokens raised).map capture =
      (raisedTokens line).map fun t => (⟨t.start, upper t.text⟩ : Capture) := by
    refine (placed_raisedTokens raised).eq_of_map_eq hold ?_
    have hplaces := map_place_raisedTokens_of_upper_eq (upper_raiseKeywords line)
    simpa [Function.comp_def, capture] using hplaces
  rw [raiseKeywords_eq_substitute raised]
  refine substitute_eq_self (placed_raisedTokens raised) ?_
  intro p hp
  rw [heq] at hp
  obtain ⟨t, -, rfl⟩ := mem_map.mp hp
  exact upper_upper t.text

/-! ## Laying out lines -/

/-- The indentation of a level. -/
def indentation (o : Options) (level : Nat) : Text :=
  (List.replicate level o.unit).flatten

lemma eq_of_mem_indentation {c : Char} {level : Nat} (h : c ∈ indentation o level) :
    c = ' ' ∨ c = '\t' := by
  obtain ⟨unit, hunit, hc⟩ := mem_flatten.mp h
  rw [eq_of_mem_replicate hunit, Options.unit] at hc
  split at hc
  · exact .inl (eq_of_mem_replicate hc)
  · exact .inr (mem_singleton.mp hc)

lemma isBlank_of_mem_indentation {level : Nat} : ∀ c ∈ indentation o level, isBlank c = true := by
  intro c hc
  rcases eq_of_mem_indentation hc with rfl | rfl <;> decide

/-- A line in the form in which it is laid out: not blank, trimmed, its keywords raised. -/
structure IsNormal (line : Text) : Prop where
  ne_nil : line ≠ []
  trim_eq : trim line = line
  raise_eq : raiseKeywords line = line

lemma isNormal_raiseKeywords (h : trim line ≠ []) : IsNormal (raiseKeywords (trim line)) where
  ne_nil := by
    intro hnil
    have hup := upper_raiseKeywords (trim line)
    rw [hnil] at hup
    exact h (upper_eq_nil.mp hup.symm)
  trim_eq := trim_eq_self_of_upper_eq (upper_raiseKeywords _).symm (trim_trim line)
  raise_eq := raiseKeywords_raiseKeywords _

/-- The level at which a line stands. -/
def levelOf (s : State) (line : Text) : Nat :=
  if dedenting.contains (leadingWord (Code.clean line)) then s.level - 1 else s.level

/-- A line with the indentation of its level. -/
def indented (o : Options) (s : State) (line : Text) : Text :=
  indentation o (levelOf s line) ++ line

/-- What a blank line leaves behind. -/
def State.afterBlank (s : State) : State :=
  { s with lastBlank := true, blankDue := false }

/-- A line is laid out with its indentation, and perhaps a blank line before it. -/
lemma layLine_fst (o : Options) (s : State) (line : Text) :
    (layLine o s line).1 = [indented o s line] ∨
      (layLine o s line).1 = [[], indented o s line] := by
  rw [layLine]
  split
  · exact .inr rfl
  · exact .inl rfl

/-- Behind a blank line no other blank line is put in, and the line goes on from the same state
as without it. -/
lemma layLine_afterBlank (o : Options) (s : State) (line : Text) :
    layLine o s.afterBlank line = ([indented o s line], (layLine o s line).2) := by
  simp [layLine, State.afterBlank, indented, indentation, levelOf]

lemma layLines_of_trim_eq_nil (o : Options) (s : State) (h : trim line = []) (rest : List Text) :
    layLines o s (line :: rest) = [] :: layLines o s.afterBlank rest := by
  rw [layLines, h]
  rfl

lemma layLines_of_trim_ne_nil (o : Options) (s : State) (h : trim line ≠ []) (rest : List Text) :
    layLines o s (line :: rest) = (layLine o s (raiseKeywords (trim line))).1 ++
      layLines o (layLine o s (raiseKeywords (trim line))).2 rest := by
  rw [layLines]
  split
  case h_1 hnil => exact absurd hnil h
  case h_2 => rfl

lemma trim_indented (o : Options) (s : State) (h : IsNormal line) :
    trim (indented o s line) = line := by
  rw [indented, trim_append_of_blank isBlank_of_mem_indentation, h.trim_eq]

/-- An indented line is read as the line without its indentation. -/
lemma layLines_indented (o : Options) (s s' : State) (h : IsNormal line) (rest : List Text) :
    layLines o s (indented o s' line :: rest) =
      (layLine o s line).1 ++ layLines o (layLine o s line).2 rest := by
  have htrim := trim_indented o s' h
  rw [layLines_of_trim_ne_nil o s (by rw [htrim]; exact h.ne_nil), htrim, h.raise_eq]

/-- **Step.**  A pass over what a line was laid out as, from the same state, gives it back and goes
on from the same state. -/
lemma layLines_layLine_append (o : Options) (s : State) (h : IsNormal line) (rest : List Text) :
    layLines o s ((layLine o s line).1 ++ rest) =
      (layLine o s line).1 ++ layLines o (layLine o s line).2 rest := by
  rcases layLine_fst o s line with hfst | hfst
  · rw [hfst, singleton_append, layLines_indented o s s h, hfst]
  · -- The blank line put in is met first; behind it only the indented line is laid out.
    rw [hfst, cons_append, singleton_append, layLines_of_trim_eq_nil o s rfl,
      layLines_indented o s.afterBlank s h, layLine_afterBlank]
    rfl

/-- **Run.**  Laying out lines is idempotent from every state. -/
lemma layLines_layLines (o : Options) (s : State) (lines : List Text) :
    layLines o s (layLines o s lines) = layLines o s lines := by
  induction lines generalizing s with
  | nil => rfl
  | cons line rest ih =>
    by_cases h : trim line = []
    · rw [layLines_of_trim_eq_nil o s h, layLines_of_trim_eq_nil o s rfl, ih]
    · rw [layLines_of_trim_ne_nil o s h, layLines_layLine_append o s (isNormal_raiseKeywords h), ih]

/-! ## Lines of the result -/

lemma noBreak_of_upper_eq (h : upper a = upper b) (ha : NoBreak a) : NoBreak b := by
  intro c hc
  have hmem : upperChar c ∈ upper a := by
    rw [h]
    exact mem_map_of_mem hc
  obtain ⟨d, hd, hdc⟩ := mem_map.mp hmem
  have hfix : ∀ e, isLetter e = false → c = e → d = e := by
    intro e he hce
    have hce' : upperChar c = e := (upperChar_eq_iff he).mpr hce
    exact (upperChar_eq_iff he).mp (hdc.trans hce')
  exact ⟨fun hn => (ha d hd).1 (hfix _ (by decide) hn),
    fun hr => (ha d hd).2 (hfix _ (by decide) hr)⟩

lemma noBreak_of_mem_layLine (hline : NoBreak line) (h : l ∈ (layLine o s line).1) :
    NoBreak l := by
  have hindented : NoBreak (indented o s line) := by
    refine noBreak_append.mpr ⟨fun c hc => ?_, hline⟩
    rcases eq_of_mem_indentation hc with rfl | rfl <;> decide
  rcases layLine_fst o s line with hfst | hfst
  · rw [hfst] at h
    rw [mem_singleton.mp h]
    exact hindented
  · rw [hfst, mem_pair] at h
    rcases h with rfl | rfl
    · exact noBreak_nil
    · exact hindented

lemma noBreak_of_mem_layLines {lines : List Text}
    (hlines : ∀ line ∈ lines, NoBreak line) (h : l ∈ layLines o s lines) : NoBreak l := by
  induction lines generalizing s with
  | nil => simp [layLines] at h
  | cons line rest ih =>
    have hrest : ∀ line ∈ rest, NoBreak line :=
      (forall_mem_cons.mp hlines).2
    by_cases htrim : trim line = []
    · rw [layLines_of_trim_eq_nil o s htrim] at h
      rcases mem_cons.mp h with rfl | h
      · exact noBreak_nil
      · exact ih hrest h
    · rw [layLines_of_trim_ne_nil o s htrim] at h
      rcases mem_append.mp h with h | h
      · refine noBreak_of_mem_layLine ?_ h
        refine noBreak_of_upper_eq (upper_raiseKeywords (trim line)).symm ?_
        exact (hlines line mem_cons_self).of_subset (trim_subset line)
      · exact ih hrest h

lemma noBreak_of_mem_linesOf (h : line ∈ linesOf text) : NoBreak line := by
  rw [linesOf] at h
  split at h
  · exact noBreak_of_mem_lines (dropLast_subset _ h)
  · exact noBreak_of_mem_lines h

/-- Lines with a line feed behind each are the lines of their text. -/
lemma linesOf_flatMap {ls : List Text} (h : ∀ l ∈ ls, NoBreak l) :
    linesOf (ls.flatMap (· ++ ['\n'])) = ls := by
  simp [linesOf, lines_flatMap_lineFeed h]

/-- The lines that a document is laid out as. -/
def laidLines (o : Options) (text : Text) : List Text :=
  layLines o {} (linesOf text)

lemma noBreak_of_mem_laidLines (h : l ∈ laidLines o text) : NoBreak l :=
  noBreak_of_mem_layLines (fun _ => noBreak_of_mem_linesOf) h

/-- A document is laid out as its laid out lines with a line feed behind each; one without lines
gets one. -/
lemma format_eq (o : Options) (text : Text) :
    format o text =
      (if laidLines o text = [] then [[]] else laidLines o text).flatMap (· ++ ['\n']) := by
  rw [format, ← laidLines]
  split
  case h_1 hnil =>
    have hlaid : laidLines o text = [] := by
      rw [flatMap_eq_nil_iff] at hnil
      refine eq_nil_iff_forall_not_mem.mpr fun l hl => ?_
      exact absurd (hnil l hl) (by simp)
    rw [if_pos hlaid]
    rfl
  case h_2 hsome =>
    rw [if_neg]
    intro hnil
    exact hsome (by simp [hnil])

lemma noBreak_of_mem_formatLines
    (h : l ∈ if laidLines o text = [] then [[]] else laidLines o text) : NoBreak l := by
  split at h
  · rw [mem_singleton.mp h]
    exact noBreak_nil
  · exact noBreak_of_mem_laidLines h

lemma linesOf_format (o : Options) (text : Text) :
    linesOf (format o text) = if laidLines o text = [] then [[]] else laidLines o text := by
  rw [format_eq, linesOf_flatMap fun _ => noBreak_of_mem_formatLines]

lemma laidLines_format (o : Options) (text : Text) :
    laidLines o (format o text) = if laidLines o text = [] then [[]] else laidLines o text := by
  rw [laidLines, linesOf_format]
  split
  · rfl
  · exact layLines_layLines o {} (linesOf text)

lemma format_format (o : Options) (text : Text) : format o (format o text) = format o text := by
  rw [format_eq o (format o text), laidLines_format, format_eq]
  split
  · rfl
  · rfl

/-! ## The edit -/

lemma plainBreaks_eq_self (h : '\r' ∉ text) : plainBreaks text = text := by
  fun_induction plainBreaks text with
  | case1 => rfl
  | case2 rest ih => simp at h
  | case3 c rest _ ih => rw [ih fun hr => h (mem_cons_of_mem _ hr)]

lemma cr_notMem_format (o : Options) (text : Text) : '\r' ∉ format o text := by
  intro h
  rw [format_eq] at h
  obtain ⟨l, hl, hc⟩ := mem_flatMap.mp h
  rcases mem_append.mp hc with hc | hc
  · exact (noBreak_of_mem_formatLines hl _ hc).2 rfl
  · simp at hc

lemma formatEdits_format (o : Options) (text : Text) : formatEdits o (format o text) = [] := by
  simp [formatEdits, format_format, plainBreaks_eq_self (cr_notMem_format o text)]

/-- **Formatting is stable and its edit is faithful.**  A second pass changes nothing.  Either no
edit is asked for, and the document is laid out up to the form of its line ends, or one edit of
the whole text is, with the laid out document as the new text; applied, it leaves nothing to do. -/
theorem format_stable (o : Options) (text : Text) :
    format o (format o text) = format o text ∧
      (formatEdits o text = [] ∧ format o text = plainBreaks text ∨
        ∃ edit, formatEdits o text = [edit] ∧
          text.offset edit.range.start = some 0 ∧
          text.offset edit.range.stop = some (byteLength text) ∧
          edit.newText = format o text) ∧
      ∃ result, text.applyEdits (formatEdits o text) = some result ∧ formatEdits o result = [] := by
  refine ⟨format_format o text, ?_⟩
  by_cases h : format o text = plainBreaks text
  · have hedits : formatEdits o text = [] := by simp [formatEdits, h]
    rw [hedits]
    exact ⟨.inl ⟨rfl, h⟩, text, applyEdits_nil text, hedits⟩
  · have hedits : formatEdits o text = [⟨text.wholeRange, format o text⟩] := by
      simp [formatEdits, h]
    obtain ⟨hstart, hstop⟩ := offset_wholeRange text
    rw [hedits]
    exact ⟨.inr ⟨_, rfl, hstart, hstop, rfl⟩, format o text, applyEdits_wholeRange text _,
      formatEdits_format o text⟩

end KrlWorkbench.Layout
