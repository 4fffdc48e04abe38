import KrlWorkbench.Proofs.Text.EditApplication

/-!
# Edits that touch one line

A fix for a finding is one edit.  It changes a piece of a line, or it puts a new line between two
others.  Either way the rest of the text stays: the other lines, and the breaks between them.  The
one thing to look out for is a carriage return in front of the edit, which would join a line feed
that comes to stand behind it; a line that is not empty keeps the two apart.

`Replaced` is what the first kind of edit does to the lines.
-/

namespace KrlWorkbench.Text

open List

variable {rest text lead new : Text} {n : Nat}

/-- Only a carriage return looks at what follows, and only at the first character. -/
lemma IsBreak.of_head? {brk rest' : Text} (h : IsBreak brk rest)
    (hhead : brk = ['\r'] → rest.head? ≠ some '\n' → rest'.head? ≠ some '\n') : IsBreak brk rest' :=
  h.imp_right (.imp_right fun h => ⟨h.1, hhead h.1 h.2⟩)

/-! ## A text from one of its lines on -/

/-- The text is `before`, which ends with a break, and then `rest`, which begins with line `n`.
Another text may follow `before` instead, if it begins with no line feed. -/
structure SplitAt (text : Text) (n : Nat) (before rest : Text) : Prop where
  eq : text = before ++ rest
  start : lineStart n text = some (byteLength before)
  lines : rest.lines = text.lines.drop n
  breaks : rest.breaks = text.breaks.drop n
  followed : ∀ other : Text, other.head? ≠ some '\n' →
    (before ++ other).lines = text.lines.take n ++ other.lines ∧
      (before ++ other).breaks = text.breaks.take n ++ other.breaks

lemma SplitAt.zero (text : Text) : SplitAt text 0 [] text :=
  ⟨rfl, by simp [lineStart], rfl, rfl, fun _ _ => ⟨rfl, rfl⟩⟩

lemma SplitAt.succ {l brk before rest' : Text} (hl : NoBreak l) (hbrk : IsBreak brk rest)
    (h : SplitAt rest n before rest') :
    SplitAt (l ++ (brk ++ rest)) (n + 1) (l ++ (brk ++ before)) rest' where
  eq := by rw [h.eq]; simp
  start := by
    rw [lineStart_succ_append_break hl hbrk, h.start]
    simp [Nat.add_assoc]
  lines := by rw [lines_append_break hl hbrk, drop_succ_cons, h.lines]
  breaks := by rw [breaks_append_break hl hbrk, drop_succ_cons, h.breaks]
  followed other hother := by
    have hbrk' : IsBreak brk (before ++ other) := hbrk.of_head? fun _ hhead => by
      cases before with
      | nil => exact hother
      | cons c before => simpa [h.eq] using hhead
    obtain ⟨hlines, hbreaks⟩ := h.followed other hother
    rw [append_assoc, append_assoc, lines_append_break hl hbrk', breaks_append_break hl hbrk',
      hlines, hbreaks, lines_append_break hl hbrk, breaks_append_break hl hbrk]
    exact ⟨rfl, rfl⟩

lemma exists_splitAt (h : n < text.lines.length) : ∃ before rest, SplitAt text n before rest := by
  induction lined text generalizing n with
  | @last l hl =>
    obtain rfl : n = 0 := by simpa [lines_of_noBreak hl] using h
    exact ⟨[], l, .zero l⟩
  | more hl hbrk _ ih =>
    cases n with
    | zero => exact ⟨[], _, .zero _⟩
    | succ n =>
      rw [lines_append_break hl hbrk, length_cons, Nat.add_lt_add_iff_right] at h
      obtain ⟨before, rest', hsplit⟩ := ih h
      exact ⟨_, rest', hsplit.succ hl hbrk⟩

/-- A text is its first line and what follows; another line may stand before that. -/
lemma exists_first_line {l : Text} (h : text.lines.head? = some l) :
    ∃ after, text = l ++ after ∧ ∀ other, NoBreak other →
      (other ++ after).lines = other :: text.lines.tail ∧
        (other ++ after).breaks = text.breaks := by
  cases lined text with
  | last hl =>
    rw [lines_of_noBreak hl, head?_cons, Option.some.injEq] at h
    subst h
    refine ⟨[], by simp, fun other hother => ?_⟩
    rw [append_nil, lines_of_noBreak hother, breaks_of_noBreak hother, lines_of_noBreak hl,
      breaks_of_noBreak hl]
    exact ⟨rfl, rfl⟩
  | @more l' brk rest hl hbrk _ =>
    rw [lines_append_break hl hbrk, head?_cons, Option.some.injEq] at h
    subst h
    refine ⟨brk ++ rest, rfl, fun other hother => ?_⟩
    rw [lines_append_break hother hbrk, breaks_append_break hother hbrk,
      lines_append_break hl hbrk, breaks_append_break hl hbrk]
    exact ⟨rfl, rfl⟩

/-! ## One edit -/

/-- One edit puts its text in the place of the text it resolves to. -/
lemma applyEdits_singleton {before old rest : Text} {edit : TextEdit}
    (hstart : (before ++ (old ++ rest)).offset edit.range.start = some (byteLength before))
    (hstop : (before ++ (old ++ rest)).offset edit.range.stop =
      some (byteLength before + byteLength old)) :
    (before ++ (old ++ rest)).applyEdits [edit] = some (before ++ (edit.newText ++ rest)) := by
  have hrest : applyEditsFrom ([] ++ (before ++ (old ++ rest)))
      (byteLength ([] : Text) + byteLength before + byteLength old) [] = some rest := by
    rw [applyEditsFrom, nil_append, byteLength_nil, Nat.zero_add, dropBytes_add_append,
      dropBytes_append]
  exact @applyEditsFrom_cons rest rest [] [] before old edit (by simpa using hstart)
    (by simpa using hstop) hrest

lemma line_start_span (h : text.lines[n]? = some (lead ++ rest)) (length : Nat) :
    (text.span n (byteLength lead) length).start.line = n := by
  have hspan : text.span n (byteLength lead) 0 = _ := span_eq h (by simp)
  exact congrArg (·.start.line) hspan

lemma columnOf_start_span (h : text.lines[n]? = some (lead ++ rest)) (length : Nat) :
    text.columnOf (text.span n (byteLength lead) length).start = some (byteLength lead) := by
  have hline : text.lines[n]? = some (lead ++ ([] ++ rest)) := h
  obtain ⟨before, -, -, hstart, -⟩ := exists_lineStart h
  have hoffset : text.offset (text.span n (byteLength lead) length).start = _ :=
    (offset_span hline hstart).1
  rw [columnOf, line_start_span h, hstart, hoffset]
  simp

/-- **An edit inside a line** changes this line only. -/
theorem exists_applyEdits_span {old tail : Text} (h : text.lines[n]? = some (lead ++ (old ++ tail)))
    (hnew : NoBreak new) (hne : lead ++ (new ++ tail) ≠ []) :
    ∃ text', text.applyEdits [⟨text.span n (byteLength lead) (byteLength old), new⟩] = some text' ∧
      text'.lines = text.lines.set n (lead ++ (new ++ tail)) ∧ text'.breaks = text.breaks := by
  obtain ⟨hn, -⟩ := List.getElem?_eq_some_iff.mp h
  obtain ⟨before, rest, hsplit⟩ := exists_splitAt hn
  have hhead : rest.lines.head? = some (lead ++ (old ++ tail)) := by
    rw [hsplit.lines, head?_drop, h]
  obtain ⟨after, hrest, hother⟩ := exists_first_line hhead
  have hline := noBreak_of_mem_lines (mem_of_getElem? h)
  have hnoBreak : NoBreak (lead ++ (new ++ tail)) := by
    obtain ⟨hlead, htail⟩ := noBreak_append.mp hline
    exact noBreak_append.mpr ⟨hlead, noBreak_append.mpr ⟨hnew, (noBreak_append.mp htail).2⟩⟩
  -- No line feed comes to stand behind a return above.
  have hfollows : ((lead ++ (new ++ tail)) ++ after).head? ≠ some '\n' := by
    obtain ⟨c, l, hcons⟩ := exists_cons_of_ne_nil hne
    rw [hcons] at hnoBreak ⊢
    simpa using (noBreak_cons.mp hnoBreak).1.1
  obtain ⟨hlines, hbreaks⟩ := hother _ hnoBreak
  obtain ⟨hlines', hbreaks'⟩ := hsplit.followed _ hfollows
  obtain ⟨hstart, hstop⟩ := offset_span h hsplit.start
  have htext : text = (before ++ lead) ++ (old ++ (tail ++ after)) := by
    rw [hsplit.eq, hrest]
    simp
  refine ⟨before ++ ((lead ++ (new ++ tail)) ++ after), ?_, ?_, ?_⟩
  · rw [← byteLength_append] at hstart hstop
    have hedit : text.applyEdits [⟨text.span n (byteLength lead) (byteLength old), new⟩] =
        some ((before ++ lead) ++ (new ++ (tail ++ after))) := by
      rw [htext] at hstart hstop ⊢
      exact applyEdits_singleton hstart hstop
    simpa using hedit
  · rw [hlines', hlines, hsplit.lines, tail_drop, set_eq_take_append_cons_drop, if_pos hn]
  · rw [hbreaks', hbreaks, hsplit.breaks, take_append_drop]

/-- **A new line** in front of line `n` keeps all others. -/
theorem exists_applyEdits_insert (h : n < text.lines.length) (hnew : NoBreak new) (hne : new ≠ []) :
    ∃ text', text.applyEdits [⟨text.span n 0 0, new ++ ['\n']⟩] = some text' ∧
      text'.lines = text.lines.take n ++ new :: text.lines.drop n := by
  obtain ⟨before, rest, hsplit⟩ := exists_splitAt h
  have hline : text.lines[n]? = some ([] ++ ([] ++ text.lines[n])) := by simp
  obtain ⟨hstart, hstop⟩ := offset_span hline hsplit.start
  have hfollows : (new ++ (['\n'] ++ rest)).head? ≠ some '\n' := by
    obtain ⟨c, l, rfl⟩ := exists_cons_of_ne_nil hne
    simpa using (noBreak_cons.mp hnew).1.1
  refine ⟨before ++ (new ++ (['\n'] ++ rest)), ?_, ?_⟩
  · have hedit : text.applyEdits [⟨text.span n 0 0, new ++ ['\n']⟩] =
        some (before ++ ((new ++ ['\n']) ++ rest)) := by
      have htext : text = before ++ ([] ++ rest) := hsplit.eq
      rw [htext] at hstart hstop ⊢
      exact applyEdits_singleton hstart hstop
    simpa using hedit
  · rw [(hsplit.followed _ hfollows).1, lines_append_break hnew (.inl rfl), hsplit.lines]

/-- A line feed and a new line at the end of a text that ends in no break. -/
lemma lines_append_lineFeed (hlast : text.lines.getLast? ≠ some []) (hnew : NoBreak new) :
    (text ++ '\n' :: new).lines = text.lines ++ [new] := by
  induction lined text with
  | @last l hl =>
    have hlines : (l ++ (['\n'] ++ new)).lines = l :: new.lines :=
      lines_append_break hl (.inl rfl)
    rw [lines_of_noBreak hnew] at hlines
    rw [lines_of_noBreak hl]
    exact hlines
  | @more l brk rest hl hbrk hrest ih =>
    rw [lines_append_break hl hbrk] at hlast ⊢
    have hlast' : rest.lines.getLast? ≠ some [] := by
      rwa [getLast?_cons_of_ne_nil (lines_ne_nil rest)] at hlast
    have hbrk' : IsBreak brk (rest ++ '\n' :: new) := hbrk.of_head? fun _ hhead => by
      cases rest with
      | nil => exact absurd rfl hlast'
      | cons c rest => simpa using hhead
    rw [append_assoc, append_assoc, lines_append_break hl hbrk', ih hlast', cons_append]

/-- **A new line** behind the last one keeps all others. -/
theorem exists_applyEdits_append (hlast : text.lines.getLast? ≠ some []) (hnew : NoBreak new) :
    ∃ text', text.applyEdits [⟨.point text.wholeRange.stop, '\n' :: new⟩] = some text' ∧
      text'.lines = text.lines ++ [new] := by
  refine ⟨text ++ '\n' :: new, ?_, lines_append_lineFeed hlast hnew⟩
  have hend := (offset_wholeRange text).2
  have hedit := @applyEdits_singleton text [] [] ⟨.point text.wholeRange.stop, '\n' :: new⟩
    (by simpa [Range.point] using hend) (by simpa [Range.point] using hend)
  simpa using hedit

/-! ## One line replaced -/

/-- The second text is the first with another line `k`. -/
structure Replaced (text : Text) (k : Nat) (old new text' : Text) : Prop where
  line : text.lines[k]? = some old
  lines : text'.lines = text.lines.set k new

namespace Replaced

variable {text text' old new : Text} {k : Nat} (h : Replaced text k old new text')
include h

lemma lt_length : k < text.lines.length :=
  (List.getElem?_eq_some_iff.mp h.line).1

lemma getElem?_self : text'.lines[k]? = some new := by
  rw [h.lines, getElem?_set_self h.lt_length]

lemma getElem?_of_ne {i : Nat} (hi : i ≠ k) : text'.lines[i]? = text.lines[i]? := by
  rw [h.lines, getElem?_set_ne hi.symm]

lemma exists_split : ∃ above below, text.lines = above ++ old :: below ∧
    text'.lines = above ++ new :: below ∧ above.length = k := by
  obtain ⟨hk, hold⟩ := List.getElem?_eq_some_iff.mp h.line
  refine ⟨text.lines.take k, text.lines.drop (k + 1), ?_, ?_,
    length_take_of_le (Nat.le_of_lt hk)⟩
  · rw [← hold, ← drop_eq_getElem_cons hk, take_append_drop]
  · rw [h.lines, set_eq_take_append_cons_drop, if_pos hk]

/-- What is gathered from lines, when the line gives the same as before. -/
lemma filterMap_lines {α : Type} {f : Text → Option α} (hf : f new = f old) :
    text'.lines.filterMap f = text.lines.filterMap f := by
  obtain ⟨above, below, hlines, hlines', -⟩ := h.exists_split
  rw [hlines, hlines', filterMap_append, filterMap_append, filterMap_cons, filterMap_cons, hf]

end Replaced
end KrlWorkbench.Text
