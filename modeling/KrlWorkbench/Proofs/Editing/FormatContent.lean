import KrlWorkbench.Proofs.Editing.FormatStability

/-!
# Formatting keeps the content

A document that is laid out says what it said before.  Of a line only the blanks at its ends and the
case of its keywords change, and between lines only blank ones are put in, on request.

* A letter is raised where a keyword of the cleaned line stands (`getElem?_raiseKeywords`).  Such a
  keyword is a piece of the line itself, outside strings and in front of the comment
  (`Token.exists_append_of_mem_tokens_clean`), so strings and comments stay as they are.
* Laying out a line gives it back, perhaps behind a blank line (`map_trim_layLine`).  By induction
  the lines of a document are found again, in their order, among the lines it is laid out as
  (`sublist_map_trim_layLines`), and what else is found there is blank
  (`map_trim_solidLines_layLines`).
-/

namespace KrlWorkbench

open List Code Text Token

variable {before line rest source : Text} {i : Nat} {t : Token}

namespace Token

/-! ## What stands before an identifier -/

/-- The identifier stands in `rest`, with the lead that what stands before it gives; `before`
precedes `rest`, nearest character first. -/
def StandsBehind (before rest : Text) (t : Token) : Prop :=
  ∃ gap tail, rest = gap ++ (t.text ++ tail) ∧ t.start = byteLength before + byteLength gap ∧
    t.lead = leadOf (gap.reverse ++ before)

lemma StandsBehind.append_left (skipped : Text)
    (h : StandsBehind (skipped.reverse ++ before) rest t) :
    StandsBehind before (skipped ++ rest) t := by
  obtain ⟨gap, tail, rfl, hstart, hlead⟩ := h
  refine ⟨skipped ++ gap, tail, by simp, ?_, by simpa using hlead⟩
  rw [hstart]
  simp only [byteLength_append, byteLength_reverse]
  omega

lemma standsBehind_of_mem_scan (h : t ∈ scan before rest) :
    StandsBehind before rest t := by
  refine scan_rec (P := fun before rest found => ∀ t ∈ found, StandsBehind before rest t)
    (fun _ => by simp) ?_ ?_ before rest t h
  · intro before name rest found _ _ ih
    exact forall_mem_cons.mpr ⟨⟨[], rest, rfl, rfl, rfl⟩, fun t ht => (ih t ht).append_left name⟩
  · exact fun before skipped rest found _ ih t ht => (ih t ht).append_left skipped

/-- An identifier of a line's code stands in the line, outside strings, and with a sigil directly
before it in the line it is qualified. -/
lemma exists_append_of_mem_tokens_clean (h : t ∈ tokens (clean line)) :
    ∃ before after, line = before ++ (t.text ++ after) ∧ t.start = byteLength before ∧
      insideAfter false before = false ∧
      (before.getLast?.any isSigil = true → t.isQualified = true) := by
  obtain ⟨gap, tail, hclean, hstart, hlead⟩ := standsBehind_of_mem_scan h
  obtain ⟨comment, hline⟩ := codePart_isPrefix line
  obtain ⟨before, behind, hcode, hgap, hbehind⟩ := exists_append_of_maskFrom_eq hclean
  obtain ⟨name, after, rfl, hname, -⟩ := exists_append_of_maskFrom_eq hbehind
  have hident := (stop_eq_and_isIdentifier_of_mem_scan h).2
  have hsolid : ∀ c ∈ maskFrom (insideAfter false before) name,
      isAscii c = true ∧ c ≠ ' ' := by
    rw [hname]
    intro c hc
    have hc := isNameChar_of_isIdentifier hident c hc
    refine ⟨isAscii_of_isNameChar hc, ?_⟩
    rintro rfl
    exact absurd hc (by decide)
  have hkept : t.text = name := by
    rw [← hname]
    exact maskFrom_eq_self fun c hc => (hsolid c hc).2
  -- Masking leaves blanks inside strings, and a name has none.
  have hinside : insideAfter false before = false := by
    refine inside_eq_false_of_maskFrom ?_ hsolid
    rw [← hkept]
    exact ne_nil_of_isIdentifier hident
  refine ⟨before, after ++ comment, ?_, ?_, hinside, ?_⟩
  · rw [← hline, hcode, hkept]
    simp
  · rw [hstart, ← hgap, byteLength_maskFrom, byteLength_nil, Nat.zero_add]
  · intro hsigil
    obtain ⟨d, hlast, hd⟩ : ∃ d, before.getLast? = some d ∧ isSigil d = true := by
      simpa [Option.any_eq_true] using hsigil
    have hquote : d ≠ '"' := by
      rintro rfl
      exact absurd hd (by decide)
    have hlast' := getLast?_maskFrom hlast hquote hinside
    rw [hgap] at hlast'
    rw [isQualified, hlead, leadOf, append_nil, head?_reverse, hlast']
    simp [hd]

end Token

namespace Layout

/-! ## Raising letter by letter -/

/-- Character `i` of the line belongs to the identifier. -/
def Holds (line : Text) (t : Token) (i : Nat) : Prop :=
  t.start ≤ byteLength (line.take i) ∧ byteLength (line.take i) < t.stop

/-- The identifier is a keyword of the line's code with no sigil directly before it. -/
structure IsPlainKeyword (line : Text) (t : Token) : Prop where
  mem : t ∈ tokens (clean line)
  isKeyword : Keyword.isKeyword t.text = true
  plain : (takeBytes t.start line).getLast?.any isSigil = false

open Classical in
lemma getElem?_raiseKeywords (source : Text) (i : Nat) : (raiseKeywords source)[i]? =
    source[i]?.map (if ∃ t ∈ raisedTokens source, Holds source t i then upperChar else id) := by
  have hcovers : (∃ p ∈ (raisedTokens source).map capture,
      p.Covers (0 + byteLength (source.take i))) ↔ ∃ t ∈ raisedTokens source, Holds source t i := by
    simp only [mem_map, exists_exists_and_eq_and, Nat.zero_add, Capture.Covers]
    refine exists_congr fun t => and_congr_right fun ht => ?_
    rw [← stop_eq_of_mem_raisedTokens ht]
    rfl
  rw [raiseKeywords_eq_substitute]
  refine (getElem?_substitute_map upperChar (placed_raisedTokens source) i).trans ?_
  simp only [hcovers]
  split <;> rfl

lemma getElem?_raiseKeywords_of_holds (ht : t ∈ raisedTokens source)
    (h : Holds source t i) : (raiseKeywords source)[i]? = source[i]?.map upperChar := by
  rw [getElem?_raiseKeywords, if_pos ⟨t, ht, h⟩]

lemma getElem?_raiseKeywords_of_not (h : ∀ t ∈ raisedTokens source, ¬Holds source t i) :
    (raiseKeywords source)[i]? = source[i]? := by
  rw [getElem?_raiseKeywords, if_neg (by simpa using h), Option.map_id]
  rfl

lemma isPlainKeyword_of_mem_raisedTokens (h : t ∈ raisedTokens line) : IsPlainKeyword line t := by
  obtain ⟨hmem, hraised⟩ := mem_filter.mp h
  obtain ⟨hplain, hkeyword⟩ : t.isQualified = false ∧ Keyword.isKeyword t.text = true := by
    simpa [isRaised] using hraised
  refine ⟨hmem, hkeyword, ?_⟩
  obtain ⟨before, after, hline, hstart, -, hsigil⟩ :=
    exists_append_of_mem_tokens_clean hmem
  rw [hstart, hline, takeBytes_append, ← Bool.not_eq_true]
  intro hany
  rw [hsigil hany] at hplain
  simp at hplain

/-- The front of a line that ends in an identifier is what stands before it and a piece of it. -/
lemma exists_take_eq {name after : Text}
    (hlow : byteLength before ≤ byteLength ((before ++ (name ++ after)).take i))
    (hhigh : byteLength ((before ++ (name ++ after)).take i) < byteLength (before ++ name)) :
    ∃ j, (before ++ (name ++ after)).take i = before ++ name.take j := by
  by_cases hi : i < before.length
  · have hlt := byteLength_take_lt hi
    rw [take_append_of_le_length (Nat.le_of_lt hi)] at hlow
    omega
  · obtain ⟨j, rfl⟩ := Nat.exists_eq_add_of_le (Nat.le_of_not_lt hi)
    rw [take_length_add_append] at hhigh ⊢
    by_cases hj : j ≤ name.length
    · exact ⟨j, by rw [take_append_of_le_length hj]⟩
    · obtain ⟨k, rfl⟩ := Nat.exists_eq_add_of_le (Nat.le_of_not_le hj)
      rw [take_length_add_append, byteLength_append, byteLength_append, byteLength_append]
        at hhigh
      omega

lemma inString_eq_false_of_holds (ht : t ∈ tokens (clean line)) (h : Holds line t i) :
    inString line (byteLength (line.take i)) = false := by
  obtain ⟨before, after, rfl, hstart, hinside, -⟩ := exists_append_of_mem_tokens_clean ht
  obtain ⟨hstop, hident⟩ := stop_eq_and_isIdentifier_of_mem_scan ht
  obtain ⟨hlow, hhigh⟩ := h
  obtain ⟨j, htake⟩ : ∃ j, (before ++ (t.text ++ after)).take i = before ++ t.text.take j := by
    refine exists_take_eq (by omega) ?_
    rw [hstop, Capture.stop, capture, hstart] at hhigh
    rwa [byteLength_append]
  have hsplit := inString_eq ((before ++ (t.text ++ after)).take i)
    ((before ++ (t.text ++ after)).drop i)
  rw [take_append_drop] at hsplit
  rw [hsplit, htake, insideAfter_append, hinside]
  refine insideAfter_of_not_mem fun hquote => ?_
  exact absurd (isNameChar_of_isIdentifier hident _ (take_subset _ _ hquote)) (by decide)

lemma lt_commentStart_of_holds {start : Nat} (ht : t ∈ tokens (clean line))
    (h : Holds line t i) (hstart : commentStart line = some start) :
    byteLength (line.take i) < start := by
  have hstop : t.stop ≤ 0 + byteLength (clean line) := by
    rw [(stop_eq_and_isIdentifier_of_mem_scan ht).1]
    exact (placed_tokens (clean line)).stop_le (mem_map_of_mem ht)
  have hhigh := h.2
  rw [eq_of_commentStart hstart, ← byteLength_clean]
  omega

/-- `raised` is `source`, a line, with its plain keywords in upper case and nothing else changed. -/
structure IsRaising (source raised : Text) : Prop where
  length_eq : raised.length = source.length
  byteLength_eq : byteLength raised = byteLength source
  changed : ∀ i, raised[i]? = source[i]? ∨
    ∃ t, IsPlainKeyword source t ∧ Holds source t i ∧ raised[i]? = source[i]?.map upperChar
  raises : ∀ t ∈ tokens (clean source), isRaised t = true →
    ∀ i, Holds source t i → raised[i]? = source[i]?.map upperChar
  string : ∀ i, inString source (byteLength (source.take i)) = true → raised[i]? = source[i]?
  comment : ∀ i start, commentStart source = some start → start ≤ byteLength (source.take i) →
    raised[i]? = source[i]?

lemma isRaising_raiseKeywords (line : Text) : IsRaising line (raiseKeywords line) where
  length_eq := by
    have h := congrArg List.length (upper_raiseKeywords line)
    rwa [length_upper, length_upper] at h
  byteLength_eq := by
    have h := congrArg byteLength (upper_raiseKeywords line)
    rwa [byteLength_upper, byteLength_upper] at h
  changed i := by
    by_cases h : ∃ t ∈ raisedTokens line, Holds line t i
    · obtain ⟨t, ht, hi⟩ := h
      exact .inr ⟨t, isPlainKeyword_of_mem_raisedTokens ht, hi,
        getElem?_raiseKeywords_of_holds ht hi⟩
    · exact .inl (getElem?_raiseKeywords_of_not fun t ht hi => h ⟨t, ht, hi⟩)
  raises t ht hraised i hi :=
    getElem?_raiseKeywords_of_holds (mem_filter.mpr ⟨ht, hraised⟩) hi
  string i hstring := by
    refine getElem?_raiseKeywords_of_not fun t ht hi => ?_
    rw [inString_eq_false_of_holds (mem_filter.mp ht).1 hi] at hstring
    simp at hstring
  comment i start hstart hle := by
    refine getElem?_raiseKeywords_of_not fun t ht hi => ?_
    have hlt := lt_commentStart_of_holds (mem_filter.mp ht).1 hi hstart
    omega

/-! ## Line by line -/

/-- What a line says: the line without the blanks at its ends and with its keywords raised. -/
def content (line : Text) : Text :=
  raiseKeywords (trim line)

lemma content_eq_nil (h : trim line = []) : content line = [] := by
  rw [content, h]
  exact upper_eq_nil.mp (upper_raiseKeywords [])

lemma isNormal_content (h : trim line ≠ []) : IsNormal (content line) :=
  isNormal_raiseKeywords h

/-- **Step.**  A line is laid out as itself, perhaps behind a blank line. -/
lemma map_trim_layLine (o : Options) (s : State) (h : IsNormal line) :
    (layLine o s line).1.map trim = [line] ∨ (layLine o s line).1.map trim = [[], line] := by
  have htrim := trim_indented o s h
  rcases layLine_fst o s line with hfst | hfst
  · exact .inl (by rw [hfst, map_singleton, htrim])
  · exact .inr (by rw [hfst, map_cons, map_singleton, htrim]; rfl)

/-- **Run.**  Every line is found again, in order, among the lines laid out. -/
lemma sublist_map_trim_layLines (o : Options) (s : State) (lines : List Text) :
    (lines.map content).Sublist ((layLines o s lines).map trim) := by
  induction lines generalizing s with
  | nil => exact nil_sublist _
  | cons line rest ih =>
    by_cases h : trim line = []
    · rw [layLines_of_trim_eq_nil o s h, map_cons, map_cons, content_eq_nil h]
      exact (ih _).cons_cons _
    · rw [layLines_of_trim_ne_nil o s h, ← content, map_cons, map_append]
      rcases map_trim_layLine o s (isNormal_content h) with hlaid | hlaid
      · rw [hlaid]
        exact (ih _).cons_cons _
      · rw [hlaid]
        exact ((ih _).cons_cons _).cons _

/-- The lines that hold something. -/
def solidLines (lines : List Text) : List Text :=
  lines.filter fun line => trim line != []

lemma solidLines_cons_of_blank (h : trim line = []) (rest : List Text) :
    solidLines (line :: rest) = solidLines rest :=
  filter_cons_of_neg (by simpa using h)

lemma solidLines_cons_of_solid (h : trim line ≠ []) (rest : List Text) :
    solidLines (line :: rest) = line :: solidLines rest :=
  filter_cons_of_pos (by simpa using h)

/-- **Step.**  A line that holds something is laid out as one such line. -/
lemma solidLines_layLines_of_solid (o : Options) (s : State) (h : trim line ≠ [])
    (rest : List Text) : solidLines (layLines o s (line :: rest)) =
      indented o s (content line) ::
        solidLines (layLines o (layLine o s (content line)).2 rest) := by
  have hsolid : trim (indented o s (content line)) ≠ [] := by
    rw [trim_indented o s (isNormal_content h)]
    exact (isNormal_content h).ne_nil
  rw [layLines_of_trim_ne_nil o s h, ← content]
  rcases layLine_fst o s (content line) with hfst | hfst
  · rw [hfst, singleton_append, solidLines_cons_of_solid hsolid]
  · rw [hfst, cons_append, solidLines_cons_of_blank rfl, singleton_append,
      solidLines_cons_of_solid hsolid]

/-- **Run.**  Only blank lines are put in. -/
lemma map_trim_solidLines_layLines (o : Options) (s : State) (lines : List Text) :
    (solidLines (layLines o s lines)).map trim = (solidLines lines).map content := by
  induction lines generalizing s with
  | nil => rfl
  | cons line rest ih =>
    by_cases h : trim line = []
    · rw [layLines_of_trim_eq_nil o s h, solidLines_cons_of_blank rfl, solidLines_cons_of_blank h,
        ih]
    · rw [solidLines_layLines_of_solid o s h, solidLines_cons_of_solid h, map_cons, map_cons, ih,
        trim_indented o s (isNormal_content h)]

/-- **Run.**  With both options off no line is put in. -/
lemma map_trim_layLines_of_off {o : Options} (hbefore : o.blankBeforeBlocks = false)
    (hafter : o.blankAfterBlocks = false) {s : State} (hs : s.blankDue = false)
    (lines : List Text) : (layLines o s lines).map trim = lines.map content := by
  induction lines generalizing s with
  | nil => rfl
  | cons line rest ih =>
    by_cases h : trim line = []
    · rw [layLines_of_trim_eq_nil o s h, map_cons, map_cons, content_eq_nil h, ih rfl]
      rfl
    · have hlaid : (layLine o s (content line)).1 = [indented o s (content line)] := by
        simp [layLine, hbefore, hs, indented, indentation, levelOf]
      have hdue : (layLine o s (content line)).2.blankDue = false := by
        simp [layLine, hafter]
      rw [layLines_of_trim_ne_nil o s h, ← content, hlaid, map_append, ih hdue,
        map_singleton, trim_indented o s (isNormal_content h)]
      rfl

/-! ## The document -/

lemma linesOf_ne_nil {text : Text} (h : text ≠ []) : linesOf text ≠ [] := by
  cases lined text with
  | last hl => simp [linesOf, lines_of_noBreak hl, h]
  | @more l brk rest hl hbrk _ =>
    obtain ⟨second, others, hlines⟩ := exists_cons_of_ne_nil (lines_ne_nil rest)
    rw [linesOf, lines_append_break hl hbrk, hlines]
    split
    · simp
    · simp

lemma solidLines_linesOf_format (o : Options) (text : Text) :
    solidLines (linesOf (format o text)) = solidLines (laidLines o text) := by
  rw [linesOf_format]
  split
  case isTrue hnil =>
    rw [hnil]
    rfl
  case isFalse => rfl

lemma linesOf_format_of_ne_nil (o : Options) {text : Text} (h : linesOf text ≠ []) :
    linesOf (format o text) = laidLines o text := by
  rw [linesOf_format, if_neg]
  intro hnil
  have hsub := sublist_map_trim_layLines o {} (linesOf text)
  rw [← laidLines, hnil] at hsub
  exact h (by simpa using hsub)

/-- **Formatting keeps the content.**  The lines that are not blank are the document's lines that
are not blank, in their order, each trimmed and with its keywords raised.  Raising keywords
(`IsRaising`) puts letters of plain keywords into upper case and changes nothing else, so nothing in
a string or a comment.  No line is lost, blank ones included, and with both options off none is put
in but the one that an empty document gets. -/
theorem format_keeps_content (o : Options) (text : Text) :
    ((linesOf (format o text)).filter fun line => trim line != []).map trim =
        ((linesOf text).filter fun line => trim line != []).map (fun l => raiseKeywords (trim l)) ∧
      (∀ line, IsRaising line (raiseKeywords line)) ∧
      ((linesOf text).map fun l => raiseKeywords (trim l)).Sublist
        ((linesOf (format o text)).map trim) ∧
      (text ≠ [] → o.blankBeforeBlocks = false → o.blankAfterBlocks = false →
        (linesOf (format o text)).map trim =
          (linesOf text).map fun l => raiseKeywords (trim l)) := by
  refine ⟨?_, isRaising_raiseKeywords, ?_, ?_⟩
  · rw [← solidLines, solidLines_linesOf_format]
    exact map_trim_solidLines_layLines o {} (linesOf text)
  · by_cases hnone : linesOf text = []
    · rw [hnone]
      exact nil_sublist _
    · rw [linesOf_format_of_ne_nil o hnone]
      exact sublist_map_trim_layLines o {} (linesOf text)
  · intro htext hbefore hafter
    rw [linesOf_format_of_ne_nil o (linesOf_ne_nil htext)]
    exact map_trim_layLines_of_off hbefore hafter rfl (linesOf text)

/-- A document with a keyword in a comment and one in a string. -/
def messageText : Text :=
  "if x then ; if\n \n  s = \"if\"\nendif".toList

/-- Both stay, the other keywords are raised, and no line is put in beside the blank one. -/
theorem format_keeps_content_message :
    (messageText ≠ [] ∧ ({} : Options).blankBeforeBlocks = false ∧
      ({} : Options).blankAfterBlocks = false) ∧
    (linesOf (format {} messageText)).map trim =
      ["IF x THEN ; if".toList, [], "s = \"if\"".toList, "ENDIF".toList] :=
  have hlines : (linesOf messageText).map (fun l => raiseKeywords (trim l)) =
      ["IF x THEN ; if".toList, [], "s = \"if\"".toList, "ENDIF".toList] := by
    decide +kernel
  ⟨⟨by decide, rfl, rfl⟩,
    ((format_keeps_content {} messageText).2.2.2 (by decide) rfl rfl).trans hlines⟩

end Layout
end KrlWorkbench
