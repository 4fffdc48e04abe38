import KrlWorkbench.Proofs.Text.Cuts
import KrlWorkbench.Text.Document

/-!
# Lines and positions

Four functions walk a text and have to agree on what a line is: `lines`, `lineStart`, `columnOffset`
and `advance`.  Here each is reduced to one decomposition of the text.  `Lined` says that a text is
a last line without a break, or a line, a break and a text again; every text is `Lined`, and each
function has one equation per case.

From these follow the place of a line in its text (`exists_lineStart`), the position of a byte of
a line (`positionAt_lineStart`), the offset of a position in a line (`offset_lineStart`), and hence
what `span` and `wholeRange` denote.
-/

namespace KrlWorkbench.Text

open List

variable {l a b brk rest text : Text} {n start : Nat} {c : Char}

/-! ## The decomposition into lines -/

/-- No character of the text ends a line. -/
def NoBreak (l : Text) : Prop :=
  ∀ c ∈ l, c ≠ '\n' ∧ c ≠ '\r'

/-- `brk` ends a line when `rest` follows it. -/
def IsBreak (brk rest : Text) : Prop :=
  brk = ['\n'] ∨ brk = ['\r', '\n'] ∨ brk = ['\r'] ∧ rest.head? ≠ some '\n'

instance (l : Text) : Decidable (NoBreak l) :=
  inferInstanceAs (Decidable (∀ c ∈ l, _))

instance (brk rest : Text) : Decidable (IsBreak brk rest) :=
  inferInstanceAs (Decidable (_ ∨ _))

/-- A text as its lines with the breaks between them. -/
inductive Lined : Text → Prop
  | last {l : Text} (hl : NoBreak l) : Lined l
  | more {l brk rest : Text} (hl : NoBreak l) (hbrk : IsBreak brk rest) (hrest : Lined rest) :
      Lined (l ++ (brk ++ rest))

lemma noBreak_nil : NoBreak [] := by
  intro c hc
  simp at hc

lemma noBreak_cons : NoBreak (c :: l) ↔ (c ≠ '\n' ∧ c ≠ '\r') ∧ NoBreak l := by
  simp [NoBreak]

lemma noBreak_append : NoBreak (a ++ b) ↔ NoBreak a ∧ NoBreak b := by
  simp only [NoBreak, mem_append, or_imp, forall_and]
  tauto

lemma NoBreak.of_subset (hb : NoBreak b) (h : a ⊆ b) : NoBreak a :=
  fun c hc => hb c (h hc)

/-- Putting a character that ends no line in front of a text lengthens its first line. -/
lemma Lined.cons {c : Char} {text : Text} (hc : c ≠ '\n' ∧ c ≠ '\r') (h : Lined text) :
    Lined (c :: text) := by
  cases h with
  | last hl => exact .last (noBreak_cons.mpr ⟨hc, hl⟩)
  | more hl hbrk hrest => exact .more (noBreak_cons.mpr ⟨hc, hl⟩) hbrk hrest

/-- Every text is made of lines and breaks. -/
lemma lined (text : Text) : Lined text := by
  -- The recursion of `lines`: a break in front begins a new line, any other character is added to
  -- the first line of the rest.
  fun_induction lines text with
  | case1 => exact .last noBreak_nil
  | case2 rest ih => exact .more noBreak_nil (.inl rfl) ih
  | case3 rest ih => exact .more noBreak_nil (.inr (.inl rfl)) ih
  | case4 rest hlf ih =>
    refine .more noBreak_nil (.inr (.inr ⟨rfl, ?_⟩)) ih
    intro h
    obtain ⟨tail, rfl⟩ := head?_eq_some_iff.mp h
    exact hlf tail rfl
  | case5 c rest hlf _ hcr ih => exact ih.cons ⟨hlf, hcr⟩

/-! ## Lines -/

lemma lines_cons (hc : c ≠ '\n' ∧ c ≠ '\r') (rest : Text) :
    lines (c :: rest) = consLine c (lines rest) := by
  rw [lines]
  · exact hc.1
  · intro _ h _
    exact hc.2 h
  · exact hc.2

lemma lines_of_noBreak (hl : NoBreak l) : lines l = [l] := by
  induction l with
  | nil => rfl
  | cons c rest ih =>
    obtain ⟨hc, hrest⟩ := noBreak_cons.mp hl
    rw [lines_cons hc, ih hrest, consLine]

lemma lines_break (hbrk : IsBreak brk rest) : lines (brk ++ rest) = [] :: lines rest := by
  rcases hbrk with rfl | rfl | ⟨rfl, hrest⟩
  · rfl
  · rfl
  · rw [singleton_append, lines]
    rintro tail rfl
    exact hrest rfl

lemma lines_append_break (hl : NoBreak l) (hbrk : IsBreak brk rest) :
    lines (l ++ (brk ++ rest)) = l :: lines rest := by
  induction l with
  | nil => exact lines_break hbrk
  | cons c l ih =>
    obtain ⟨hc, hl⟩ := noBreak_cons.mp hl
    rw [cons_append, lines_cons hc, ih hl, consLine]

lemma lines_ne_nil (text : Text) : lines text ≠ [] := by
  cases lined text with
  | last hl => simp [lines_of_noBreak hl]
  | more hl hbrk _ => simp [lines_append_break hl hbrk]

lemma noBreak_of_mem_lines (h : l ∈ lines text) : NoBreak l := by
  induction lined text with
  | last hl =>
    rw [lines_of_noBreak hl] at h
    obtain rfl := mem_singleton.mp h
    exact hl
  | more hl hbrk _ ih =>
    rw [lines_append_break hl hbrk] at h
    rcases mem_cons.mp h with rfl | h
    · exact hl
    · exact ih h

/-- Lines written out with a line feed after each are read back, with an empty piece at the end. -/
lemma lines_flatMap_lineFeed {ls : List Text} (h : ∀ l ∈ ls, NoBreak l) :
    lines (ls.flatMap (· ++ ['\n'])) = ls ++ [[]] := by
  induction ls with
  | nil => rfl
  | cons l ls ih =>
    have hl : NoBreak l := h l mem_cons_self
    rw [flatMap_cons, append_assoc, lines_append_break hl (.inl rfl),
      ih (forall_mem_cons.mp h).2, cons_append]

/-! ## Breaks -/

/-- The breaks between the lines of a text. -/
def breaks : Text → List Text
  | [] => []
  | '\n' :: rest => ['\n'] :: breaks rest
  | '\r' :: '\n' :: rest => ['\r', '\n'] :: breaks rest
  | '\r' :: rest => ['\r'] :: breaks rest
  | _ :: rest => breaks rest

lemma breaks_cons (hc : c ≠ '\n' ∧ c ≠ '\r') (rest : Text) : breaks (c :: rest) = breaks rest := by
  rw [breaks]
  · exact hc.1
  · intro _ h _
    exact hc.2 h
  · exact hc.2

lemma breaks_append (hl : NoBreak l) (rest : Text) : breaks (l ++ rest) = breaks rest := by
  induction l with
  | nil => rfl
  | cons c l ih =>
    obtain ⟨hc, hl⟩ := noBreak_cons.mp hl
    rw [cons_append, breaks_cons hc, ih hl]

lemma breaks_of_noBreak (hl : NoBreak l) : breaks l = [] := by
  simpa [breaks] using breaks_append hl []

lemma breaks_append_break (hl : NoBreak l) (hbrk : IsBreak brk rest) :
    breaks (l ++ (brk ++ rest)) = brk :: breaks rest := by
  rw [breaks_append hl]
  rcases hbrk with rfl | rfl | ⟨rfl, hrest⟩
  · rfl
  · rfl
  · rw [singleton_append, breaks]
    rintro tail rfl
    exact hrest rfl

lemma eq_of_lines_eq_of_breaks_eq {text' : Text} (hlines : text.lines = text'.lines)
    (hbreaks : text.breaks = text'.breaks) : text = text' := by
  induction lined text generalizing text' with
  | @last text hl =>
    cases lined text' with
    | last hl' => simpa [lines_of_noBreak hl, lines_of_noBreak hl'] using hlines
    | more hl' hbrk' => simp [breaks_of_noBreak hl, breaks_append_break hl' hbrk'] at hbreaks
  | @more l brk rest hl hbrk _ ih =>
    cases lined text' with
    | last hl' => simp [breaks_of_noBreak hl', breaks_append_break hl hbrk] at hbreaks
    | @more l' brk' rest' hl' hbrk' =>
      rw [lines_append_break hl hbrk, lines_append_break hl' hbrk'] at hlines
      rw [breaks_append_break hl hbrk, breaks_append_break hl' hbrk'] at hbreaks
      obtain ⟨hl, hlines⟩ := List.cons.inj hlines
      obtain ⟨hbrk, hbreaks⟩ := List.cons.inj hbreaks
      rw [hl, hbrk, ih hlines hbreaks]

/-! ## Starts of lines -/

lemma endsLine_eq_false (hc : c ≠ '\n' ∧ c ≠ '\r') (rest : Text) : endsLine c rest = false := by
  simp [endsLine, hc.1, hc.2]

lemma lineStart_succ_of_noBreak (hl : NoBreak l) (n : Nat) : lineStart (n + 1) l = none := by
  induction l with
  | nil => rfl
  | cons c l ih =>
    obtain ⟨hc, hl⟩ := noBreak_cons.mp hl
    rw [lineStart, endsLine_eq_false hc, if_neg (by simp), ih hl, Option.map_none]

lemma lineStart_succ_break (hbrk : IsBreak brk rest) (n : Nat) :
    lineStart (n + 1) (brk ++ rest) = (lineStart n rest).map (byteLength brk + ·) := by
  rcases hbrk with rfl | rfl | ⟨rfl, hrest⟩
  · simp [lineStart, endsLine]
  · simp [lineStart, endsLine, Function.comp_def, Nat.add_assoc]
  · have hends : endsLine '\r' rest = true := by simp [endsLine, hrest]
    simp [lineStart, hends]

lemma lineStart_succ_append_break (hl : NoBreak l) (hbrk : IsBreak brk rest) (n : Nat) :
    lineStart (n + 1) (l ++ (brk ++ rest)) =
      (lineStart n rest).map (byteLength l + byteLength brk + ·) := by
  induction l with
  | nil => simpa using lineStart_succ_break hbrk n
  | cons c l ih =>
    obtain ⟨hc, hl⟩ := noBreak_cons.mp hl
    rw [cons_append, lineStart, endsLine_eq_false hc]
    simp [ih hl, Function.comp_def, Nat.add_assoc]

/-- **The place of a line.**  Line `n` stands in the text right behind its start, and what follows
it is the end of the text or a break, behind which the next line starts. -/
lemma exists_lineStart (h : text.lines[n]? = some l) :
    ∃ before after, text = before ++ (l ++ after) ∧ lineStart n text = some (byteLength before) ∧
      (n + 1 = text.lines.length ∧ after = [] ∨
        n + 1 < text.lines.length ∧ ∃ brk rest, after = brk ++ rest ∧ IsBreak brk rest ∧
          lineStart (n + 1) text = some (byteLength before + byteLength l + byteLength brk)) := by
  -- On the division of the text into lines.
  induction lined text generalizing n with
  | @last text hl =>
    rw [lines_of_noBreak hl] at h ⊢
    cases n with
    | zero =>
      obtain rfl : text = l := by simpa using h
      exact ⟨[], [], by simp, by simp [lineStart], .inl ⟨rfl, rfl⟩⟩
    | succ n => simp at h
  | @more l₀ brk rest hl hbrk _ ih =>
    rw [lines_append_break hl hbrk] at h ⊢
    cases n with
    | zero =>
      obtain rfl : l₀ = l := by simpa using h
      have hpos := length_pos_iff.mpr (lines_ne_nil rest)
      refine ⟨[], brk ++ rest, rfl, by simp [lineStart],
        .inr ⟨by simpa using hpos, brk, rest, rfl, hbrk, ?_⟩⟩
      simp [lineStart_succ_append_break hl hbrk, lineStart]
    | succ n =>
      obtain ⟨before, after, rfl, hstart, hafter⟩ := ih (by simpa using h)
      refine ⟨l₀ ++ (brk ++ before), after, by simp, ?_, ?_⟩
      · rw [lineStart_succ_append_break hl hbrk, hstart]
        simp [Nat.add_assoc]
      · rcases hafter with ⟨hlen, rfl⟩ | ⟨hlen, brk', rest', rfl, hbrk', hnext⟩
        · exact .inl ⟨by simp [hlen], rfl⟩
        · refine .inr ⟨by simpa using hlen, brk', rest', rfl, hbrk', ?_⟩
          rw [lineStart_succ_append_break hl hbrk, hnext]
          simp [Nat.add_assoc]

/-- A text begins with one break at most. -/
lemma IsBreak.unique {brk' rest' : Text} (h : IsBreak brk rest) (h' : IsBreak brk' rest')
    (heq : brk ++ rest = brk' ++ rest') : brk = brk' := by
  rcases h with rfl | rfl | ⟨rfl, hrest⟩ <;> rcases h' with rfl | rfl | ⟨rfl, hrest'⟩ <;> grind

lemma isSome_lineStart (n : Nat) (text : Text) :
    (lineStart n text).isSome = decide (n < text.lines.length) := by
  induction lined text generalizing n with
  | last hl =>
    cases n with
    | zero => simp [lineStart, lines_of_noBreak hl]
    | succ n => simp [lineStart_succ_of_noBreak hl, lines_of_noBreak hl]
  | more hl hbrk _ ih =>
    cases n with
    | zero => simp [lineStart, lines_append_break hl hbrk]
    | succ n => simp [lineStart_succ_append_break hl hbrk, lines_append_break hl hbrk, ih]

/-- **Lines and their starts are numbered alike.**  There are as many starts as lines, and a line
holds no break, stands right behind its start, and is followed by the end of the text or by one
break, behind which the next line starts. -/
theorem lineStart_numbers_lines (text : Text) :
    (∀ n, (lineStart n text).isSome = decide (n < text.lines.length)) ∧
      ∀ n : Fin text.lines.length, NoBreak text.lines[n] ∧ ∃ before after,
        text = before ++ (text.lines[n] ++ after) ∧ lineStart n text = some (byteLength before) ∧
          (after = [] ∧ lineStart (n + 1) text = none ∨
            ∃! brk, ∃ rest, after = brk ++ rest ∧ IsBreak brk rest ∧ lineStart (n + 1) text =
              some (byteLength before + byteLength text.lines[n] + byteLength brk)) := by
  refine ⟨fun n => isSome_lineStart n text, fun n => ?_⟩
  have hn : text.lines[n.val]? = some text.lines[n] := getElem?_eq_getElem n.isLt
  obtain ⟨before, after, htext, hstart, hafter⟩ := exists_lineStart hn
  refine ⟨noBreak_of_mem_lines (getElem_mem n.isLt), before, after, htext, hstart, ?_⟩
  rcases hafter with ⟨hlast, rfl⟩ | ⟨-, brk, rest, rfl, hbrk, hnext⟩
  · have hnone := isSome_lineStart (n + 1) text
    exact .inl ⟨rfl, by simpa [hlast] using hnone⟩
  · refine .inr ⟨brk, ⟨rest, rfl, hbrk, hnext⟩, ?_⟩
    rintro brk' ⟨rest', heq, hbrk', -⟩
    exact hbrk'.unique hbrk heq.symm

/-! ## From offsets to positions -/

/-- Inside a line a position moves on by the UTF-16 units passed. -/
lemma advance_of_le (hl : NoBreak l) (h : n ≤ byteLength l) (here : Position) (rest : Text) :
    advance here n (l ++ rest) = ⟨here.line, here.character + unitLength (takeBytes n l)⟩ := by
  induction l generalizing n here with
  | nil =>
    obtain rfl : n = 0 := by simpa using h
    cases rest with
    | nil => simp [advance]
    | cons c rest =>
      have hc := c.utf8Size_pos
      simp [advance, hc]
  | cons c l ih =>
    obtain ⟨hc, hl⟩ := noBreak_cons.mp hl
    rw [cons_append, advance, takeBytes, endsLine_eq_false hc]
    by_cases hn : n < c.utf8Size
    · rw [if_pos hn, if_neg (by omega)]
      simp
    · have hle : n - c.utf8Size ≤ byteLength l := by
        rw [byteLength_cons] at h
        omega
      rw [if_neg hn, if_pos (Nat.le_of_not_lt hn), if_neg (by simp), ih hl hle]
      simp [Nat.add_assoc]

lemma advance_append_noBreak (hl : NoBreak l) (here : Position) (n : Nat) (rest : Text) :
    advance here (byteLength l + n) (l ++ rest) =
      advance ⟨here.line, here.character + unitLength l⟩ n rest := by
  induction l generalizing here with
  | nil => simp
  | cons c l ih =>
    obtain ⟨hc, hl⟩ := noBreak_cons.mp hl
    have hsub : byteLength (c :: l) + n - c.utf8Size = byteLength l + n := by
      rw [byteLength_cons]
      omega
    rw [cons_append, advance, if_neg (by rw [byteLength_cons]; omega),
      endsLine_eq_false hc, hsub, if_neg (by simp), ih hl, unitLength_cons]
    simp only [Nat.add_assoc]

/-- Behind a line and its break a position stands at the start of the next line. -/
lemma advance_append_break (hl : NoBreak l) (hbrk : IsBreak brk rest) (here : Position) (n : Nat) :
    advance here (byteLength l + byteLength brk + n) (l ++ (brk ++ rest)) =
      advance ⟨here.line + 1, 0⟩ n rest := by
  rw [Nat.add_assoc, advance_append_noBreak hl]
  rcases hbrk with rfl | rfl | ⟨rfl, hrest⟩
  · have hsize : ¬ 1 + n < 1 := by omega
    simp [advance, endsLine, show Char.utf8Size '\n' = 1 from rfl, hsize]
  · have hsize : ¬ 1 + 1 + n < 1 := by omega
    simp only [advance, endsLine, cons_append, nil_append, byteLength_cons, byteLength_nil,
      show Char.utf8Size '\n' = 1 from rfl, show Char.utf8Size '\r' = 1 from rfl]
    simp [hsize]
  · have hends : endsLine '\r' rest = true := by simp [endsLine, hrest]
    have hsize : ¬ 1 + n < 1 := by omega
    simp [advance, hends, show Char.utf8Size '\r' = 1 from rfl, hsize]

lemma advance_add_lineStart {number : Nat} (h : lineStart number text = some start) (row n : Nat) :
    advance ⟨row, 0⟩ (start + n) text = advance ⟨row + number, 0⟩ n (dropBytes start text) := by
  induction lined text generalizing number start row with
  | @last text hl =>
    cases number with
    | zero =>
      obtain rfl : 0 = start := by simpa [lineStart] using h
      simp
    | succ number => simp [lineStart_succ_of_noBreak hl] at h
  | @more l brk rest hl hbrk _ ih =>
    cases number with
    | zero =>
      obtain rfl : 0 = start := by simpa [lineStart] using h
      simp
    | succ number =>
      rw [lineStart_succ_append_break hl hbrk, Option.map_eq_some_iff] at h
      obtain ⟨start, hstart, rfl⟩ := h
      have hdrop : dropBytes (byteLength (l ++ brk) + start) ((l ++ brk) ++ rest) =
          dropBytes start rest := dropBytes_add_append _ _ _
      rw [byteLength_append, append_assoc] at hdrop
      rw [Nat.add_assoc, advance_append_break hl hbrk, ih hstart, hdrop, Nat.add_assoc row,
        Nat.add_comm 1]

lemma positionAt_lineStart {k : Nat} (h : text.lines[n]? = some l)
    (hstart : lineStart n text = some start) (hk : k ≤ byteLength l) :
    positionAt text (start + k) = ⟨n, unitLength (takeBytes k l)⟩ := by
  obtain ⟨before, after, htext, hstart', -⟩ := exists_lineStart h
  obtain rfl : start = byteLength before := by simpa [hstart] using hstart'
  have hl := noBreak_of_mem_lines (mem_of_getElem? h)
  have hdrop : dropBytes (byteLength before) text = l ++ after := by rw [htext, dropBytes_append]
  rw [positionAt, advance_add_lineStart hstart, hdrop, advance_of_le hl hk]
  simp

lemma span_eq {column length : Nat} (h : text.lines[n]? = some l)
    (hlen : column + length ≤ byteLength l) :
    span text n column length =
      ⟨⟨n, unitLength (takeBytes column l)⟩, ⟨n, unitLength (takeBytes (column + length) l)⟩⟩ := by
  obtain ⟨before, -, -, hstart, -⟩ := exists_lineStart h
  have hcolumn : column ≤ byteLength l := by omega
  simp only [span, hstart, Option.getD_some, Nat.add_assoc]
  rw [positionAt_lineStart h hstart hcolumn, positionAt_lineStart h hstart hlen]

/-! ## From positions to offsets -/

lemma columnOffset_append (ha : NoBreak a) (b : Text) :
    columnOffset (unitLength a) (a ++ b) = some (byteLength a) := by
  induction a with
  | nil => simp [columnOffset]
  | cons c a ih =>
    obtain ⟨hc, ha⟩ := noBreak_cons.mp ha
    have hpos := units_pos c
    cases hk : unitLength (c :: a) with
    | zero => rw [unitLength_cons] at hk; omega
    | succ k =>
      have hlt : ¬ unitLength (c :: a) < units c := by simp
      rw [cons_append, columnOffset, ← hk, decide_eq_false hlt]
      simp [hc.1, hc.2, ih ha]

lemma offset_lineStart (h : text.lines[n]? = some (a ++ b))
    (hstart : lineStart n text = some start) :
    offset text ⟨n, unitLength a⟩ = some (start + byteLength a) := by
  obtain ⟨before, after, htext, hstart', -⟩ := exists_lineStart h
  obtain rfl : start = byteLength before := by simpa [hstart] using hstart'
  have ha : NoBreak a := (noBreak_append.mp (noBreak_of_mem_lines (mem_of_getElem? h))).1
  have hdrop : dropBytes (byteLength before) text = a ++ (b ++ after) := by
    rw [htext, dropBytes_append, append_assoc]
  have hcolumn := columnOffset_append ha (b ++ after)
  rw [← hdrop] at hcolumn
  simp [offset, hstart, hcolumn]

/-- The ends of the range of a piece `a` of a line are the offsets at which `a` begins and ends. -/
lemma offset_span {lead : Text} (h : text.lines[n]? = some (lead ++ (a ++ rest)))
    (hstart : lineStart n text = some start) :
    offset text (span text n (byteLength lead) (byteLength a)).start =
        some (start + byteLength lead) ∧
      offset text (span text n (byteLength lead) (byteLength a)).stop =
        some (start + byteLength lead + byteLength a) := by
  rw [span_eq h (by simp)]
  constructor
  · rw [takeBytes_append]
    exact offset_lineStart h hstart
  · have h' : text.lines[n]? = some ((lead ++ a) ++ rest) := by rw [h, append_assoc]
    rw [← byteLength_append, ← append_assoc, takeBytes_append, offset_lineStart h' hstart,
      byteLength_append, Nat.add_assoc]

lemma offset_wholeRange (text : Text) :
    offset text text.wholeRange.start = some 0 ∧
      offset text text.wholeRange.stop = some (byteLength text) := by
  refine ⟨by simp [wholeRange, offset, lineStart, columnOffset], ?_⟩
  have hpos := length_pos_iff.mpr (lines_ne_nil text)
  obtain ⟨l, hl⟩ : ∃ l, text.lines[text.lines.length - 1]? = some l :=
    ⟨_, getElem?_eq_getElem (by omega)⟩
  obtain ⟨before, after, htext, hstart, hafter⟩ := exists_lineStart hl
  obtain rfl : after = [] := by
    rcases hafter with ⟨-, hnil⟩ | ⟨hlt, -⟩
    · exact hnil
    · omega
  have hlen : byteLength text = byteLength before + byteLength l := by simp [htext]
  have hl' : text.lines[text.lines.length - 1]? = some (l ++ []) := by simpa using hl
  rw [wholeRange, hlen, positionAt_lineStart hl hstart (Nat.le_refl _), takeBytes_byteLength,
    offset_lineStart hl' hstart]

end KrlWorkbench.Text
