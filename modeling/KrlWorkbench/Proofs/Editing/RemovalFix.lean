import KrlWorkbench.Editing.QuickFix
import KrlWorkbench.Proofs.Finding.DeadStatements
import KrlWorkbench.Proofs.Text.LineEdits

/-!
# Removing a statement that is never reached

The fix takes the line of the statement away.  What follows the line is cut off as before, so the
other statements that are never reached should be reported as before, those below one line further
up.  Two things can come between.  A carriage return in front of the line and a line feed behind it
become one break, and then two lines are gone (`PartsBreaks`).  And the last line of a document is
not taken away: a string at its end stays, and is a statement again (`remainder`).
`dead_statements_after_removing` says that nothing else can.
-/

namespace KrlWorkbench

open List Diagnostic

/-! ## Texts without one of their lines -/

namespace Text

variable {text before rest other : Text} {n : Nat}

/-- A text can be split behind each of its breaks, and another break that begins alike may stand
there with what follows it. -/
lemma exists_splitAt_succ (h : n + 1 < text.lines.length) :
    ∃ front brk rest, SplitAt text (n + 1) (front ++ brk) rest ∧ IsBreak brk rest ∧
      text.breaks[n]? = some brk ∧
      ∀ brk' other, IsBreak brk' other → (brk' ++ other).head? = brk.head? →
        (front ++ (brk' ++ other)).lines = text.lines.take (n + 1) ++ other.lines := by
  induction lined text generalizing n with
  | last hl => simp [lines_of_noBreak hl] at h
  | @more l brk rest hl hbrk _ ih =>
    rw [lines_append_break hl hbrk] at h ⊢
    rw [breaks_append_break hl hbrk]
    cases n with
    | zero =>
      have hsplit := (SplitAt.zero rest).succ hl hbrk
      rw [append_nil] at hsplit
      exact ⟨l, brk, rest, hsplit, hbrk, rfl, fun _ _ hbrk' _ => lines_append_break hl hbrk'⟩
    | succ n =>
      obtain ⟨front, brk', rest', hsplit, hbrk', hget, hother⟩ := ih (Nat.lt_of_succ_lt_succ h)
      refine ⟨l ++ (brk ++ front), brk', rest', by simpa using hsplit.succ hl hbrk, hbrk', hget,
        fun brk'' other hbrk'' hhead => ?_⟩
      have hkept : IsBreak brk (front ++ (brk'' ++ other)) := hbrk.of_head? fun _ hne => by
        rw [hsplit.eq] at hne
        cases front with
        | nil =>
          rw [nil_append, head?_append] at hne
          rw [nil_append, hhead]
          exact fun h => hne (by rw [h, Option.some_or])
        | cons c front => exact hne
      rw [append_assoc, append_assoc, lines_append_break hl hkept, hother _ _ hbrk'' hhead]
      rfl

lemma head?_eq_lineFeed_iff {t : Text} :
    t.head? = some '\n' ↔ t.lines.head? = some [] ∧ t.breaks.head? = some ['\n'] := by
  cases lined t with
  | last hl =>
    rw [breaks_of_noBreak hl]
    cases t with
    | nil => simp
    | cons c t => simpa using (noBreak_cons.mp hl).1.1
  | @more l brk rest hl hbrk =>
    rw [lines_append_break hl hbrk, breaks_append_break hl hbrk]
    cases l with
    | nil => rcases hbrk with rfl | rfl | ⟨rfl, -⟩ <;> simp
    | cons c l => simpa using (noBreak_cons.mp hl).1.1

/-- Without line `n` a carriage return in front of it and a line feed behind it are one break. -/
def PartsBreaks (text : Text) (n : Nat) : Prop :=
  text.breaks[n - 1]? = some ['\r'] ∧ text.lines[n + 1]? = some [] ∧
    text.breaks[n + 1]? = some ['\n']

instance (text : Text) (n : Nat) : Decidable (PartsBreaks text n) :=
  inferInstanceAs (Decidable (_ ∧ _))

/-- **Taking a line away** with the break behind it keeps the others, except for an empty one that
is lost with its break. -/
theorem exists_applyEdits_remove (hne : n ≠ 0) (h : n + 1 < text.lines.length) :
    ∃ text', text.applyEdits [⟨⟨⟨n, 0⟩, ⟨n + 1, 0⟩⟩, []⟩] = some text' ∧
      text'.lines = text.lines.take n ++
        text.lines.drop (if PartsBreaks text n then n + 2 else n + 1) := by
  obtain ⟨n, rfl⟩ := Nat.exists_eq_succ_of_ne_zero hne
  obtain ⟨front, brk, rest, hsplit, hbrk, hget, hother⟩ :=
    exists_splitAt_succ (Nat.lt_of_succ_lt h)
  obtain ⟨removed, below, hrest⟩ := @exists_splitAt rest 1
    (by rw [hsplit.lines, length_drop]; omega)
  obtain ⟨before, below', hbelow⟩ := exists_splitAt h
  have hlines : below.lines = text.lines.drop (n + 2) := by
    rw [hrest.lines, hsplit.lines, List.drop_drop]
  have hbreaks : below.breaks = text.breaks.drop (n + 2) := by
    rw [hrest.breaks, hsplit.breaks, List.drop_drop]
  obtain rfl : below' = below := eq_of_lines_eq_of_breaks_eq (hbelow.lines.trans hlines.symm)
    (hbelow.breaks.trans hbreaks.symm)
  have htext : text = (front ++ brk) ++ (removed ++ below') := by rw [hsplit.eq, hrest.eq]
  have hcut : before ++ below' = front ++ brk ++ removed ++ below' := by
    rw [← hbelow.eq, htext, ← append_assoc]
  refine ⟨(front ++ brk) ++ below', ?_, ?_⟩
  · have hoffset : ∀ {k start}, k < text.lines.length → lineStart k text = some start →
        text.offset ⟨k, 0⟩ = some start := fun hk hstart => by
      have hline : text.lines[_]? = some ([] ++ _) := getElem?_eq_getElem hk
      simpa [unitLength] using offset_lineStart hline hstart
    have hstart := hoffset (Nat.lt_of_succ_lt h) hsplit.start
    have hstop := hoffset h hbelow.start
    rw [List.append_cancel_right hcut, byteLength_append] at hstop
    rw [htext] at hstart hstop ⊢
    exact applyEdits_singleton hstart hstop
  -- The breaks join if a return above meets a line feed below.
  · have hparts : PartsBreaks text (n + 1) ↔ brk = ['\r'] ∧ below'.head? = some '\n' := by
      rw [PartsBreaks, Nat.add_sub_cancel, hget, head?_eq_lineFeed_iff, hlines, hbreaks,
        head?_drop, head?_drop, Option.some.injEq]
    rw [append_assoc]
    split
    case isTrue hjoin =>
      obtain ⟨rfl, hlf⟩ := hparts.mp hjoin
      obtain ⟨other, rfl⟩ := head?_eq_some_iff.mp hlf
      rw [← tail_drop, ← hlines]
      exact hother ['\r', '\n'] other (.inr (.inl rfl)) rfl
    case isFalse hjoin =>
      have hkept : IsBreak brk below' :=
        hbrk.of_head? fun hcr _ hlf => hjoin (hparts.mpr ⟨hcr, hlf⟩)
      rw [hother brk below' hkept (by rcases hbrk with rfl | rfl | ⟨rfl, -⟩ <;> rfl), hlines]

/-- **Taking the beginning of the last line away** keeps the rest of it. -/
theorem exists_applyEdits_cut {a b : Text} {above : List Text}
    (h : text.lines = above ++ [a ++ b]) :
    ∃ text', text.applyEdits [⟨⟨⟨above.length, 0⟩, ⟨above.length, unitLength a⟩⟩, []⟩] =
      some text' ∧ text'.lines = above ++ [b] := by
  obtain ⟨before, rest, hsplit⟩ := @exists_splitAt text above.length (by simp [h])
  have hline : text.lines[above.length]? = some (a ++ b) := by simp [h]
  have hnoBreak := noBreak_of_mem_lines (mem_of_getElem? hline)
  have hb := (noBreak_append.mp hnoBreak).2
  have hlines : rest.lines = [a ++ b] := by rw [hsplit.lines, h, List.drop_left]
  obtain rfl : rest = a ++ b := by
    cases lined rest with
    | last hl => simpa [lines_of_noBreak hl] using hlines
    | more hl hbrk => simp [lines_append_break hl hbrk, lines_ne_nil] at hlines
  refine ⟨before ++ b, ?_, ?_⟩
  · have hstart := offset_lineStart (a := []) hline hsplit.start
    have hstop := offset_lineStart hline hsplit.start
    have htext := hsplit.eq
    rw [htext] at hstart hstop ⊢
    exact applyEdits_singleton (by simpa [unitLength] using hstart) hstop
  · have hhead : b.head? ≠ some '\n' := by
      cases b with
      | nil => simp
      | cons c b => simpa using (noBreak_cons.mp hb).1.1
    rw [(hsplit.followed b hhead).1, h, take_left, lines_of_noBreak hb]

end Text

/-! ## The fix -/

open Text Finding

lemma QuickFix.offer_deadCode (text raw : Text) (locale : Locale) (n : Nat) :
    offer text [.deadCode locale (codePlace n raw)] = [⟨"Remove unreachable statement",
      .deadCode locale (codePlace n raw), ⟨⟨⟨n, 0⟩, if n + 1 < text.lines.length then ⟨n + 1, 0⟩
        else ⟨n, unitLength (takeBytes (codeEnd raw) raw)⟩⟩, []⟩, false⟩] :=
  rfl

/-- The line in a document without line `n`. -/
def lineAbove (n i : Nat) : Nat :=
  if n < i then i - 1 else i

/-- The range in a document without line `n`. -/
def Range.movedUp (n : Nat) (r : Range) : Range :=
  ⟨⟨lineAbove n r.start.line, r.start.character⟩, ⟨lineAbove n r.stop.line, r.stop.character⟩⟩

/-- The diagnostic in a document without line `n`. -/
def Diagnostic.movedUp (n : Nat) (d : Diagnostic) : Diagnostic :=
  { d with range := d.range.movedUp n }

/-- What is left of the last line: all that stands behind its code. -/
def remainder (raw : Text) : Text :=
  dropBytes (codeEnd raw) raw

namespace Finding

variable {dead : Bool} {number n : Nat} {lines : List Text}

lemma map_movedUp_of_above (h : number + lines.length ≤ n) :
    (deadPlaces dead number lines).map (Range.movedUp n) = deadPlaces dead number lines := by
  refine (map_congr_left (g := id) fun r hr => ?_).trans (map_id _)
  obtain ⟨⟨line, first⟩, _, last⟩ := r
  obtain ⟨hstop, -, hlt⟩ := line_of_mem_deadPlaces hr
  dsimp only at hstop hlt
  have hn : ¬ n < line := by omega
  simp [Range.movedUp, lineAbove, hstop, hn]

lemma map_movedUp_of_below (h : n ≤ number) :
    (deadPlaces dead (number + 1) lines).map (Range.movedUp n) = deadPlaces dead number lines := by
  rw [deadPlaces_succ, map_map]
  refine (map_congr_left (g := id) fun r hr => ?_).trans (map_id _)
  obtain ⟨⟨line, first⟩, _, last⟩ := r
  obtain ⟨hstop, hle, -⟩ := line_of_mem_deadPlaces hr
  have hn : n < line + 1 := Nat.lt_succ_of_le (h.trans hle)
  dsimp only at hstop
  simp [Range.movedUp, lineAbove, hstop, hn]

/-- Lines are reported at the same places one further down only if nothing is. -/
lemma deadPlaces_succ_eq_iff :
    deadPlaces dead number lines = deadPlaces dead (number + 1) lines ↔
      deadPlaces dead (number + 1) lines = [] := by
  rw [deadPlaces_succ, map_eq_nil_iff]
  cases deadPlaces dead number lines with
  | nil => simp
  | cons r rs =>
    refine iff_of_false (fun h => ?_) (cons_ne_nil r rs)
    have hline := congrArg (·.start.line) (List.cons.inj h).1
    exact absurd hline (by simp)

lemma deadPlaces_nil_cons :
    deadPlaces true number ([] :: lines) = deadPlaces true (number + 1) lines := by
  rfl

/-- Behind lines that cut off what follows all that matters is what follows. -/
lemma filter_isDeadCode_eq_iff {above below tail : List Text} {text : Text}
    (hdead : deadAfter false above = true) (htext : text.lines = above ++ tail)
    (isSystemFile : Bool) (view : WorkspaceView) (options : Options) :
    (diagnose text isSystemFile view options).filter isDeadCode =
        ((deadPlaces false 0 above).map (deadCode options.locale) ++
          (deadPlaces true (above.length + 1) below).map (deadCode options.locale)).map
            (movedUp above.length) ↔
      deadPlaces true above.length tail = deadPlaces true above.length below := by
  have hmoved : movedUp above.length ∘ deadCode options.locale =
      deadCode options.locale ∘ Range.movedUp above.length := rfl
  rw [filter_isDeadCode, htext, deadPlaces_append, hdead, Nat.zero_add, map_append,
    map_append, map_map, map_map, hmoved, ← map_map, ← map_map,
    map_movedUp_of_above (Nat.zero_add _).le, map_movedUp_of_below (Nat.le_refl _),
    append_cancel_left_eq, (deadCode_injective _).list_map.eq_iff]

end Finding

/-- **Removing a lost statement.**  One fix is offered for it, and its edit applies.  Then the
others are reported as before, with those below moved up by one line, unless the edit joins two
breaks above some other lost statement, or leaves a lost statement in the last line. -/
theorem dead_statements_after_removing {text : Text} {isSystemFile : Bool} {view : WorkspaceView}
    {options : Options} {before after : List Diagnostic} {d : Diagnostic}
    (h : (diagnose text isSystemFile view options).filter isDeadCode =
      before ++ d :: after) (view' : WorkspaceView) :
    ∃ fix text', QuickFix.offer text [d] = [fix] ∧ text.applyEdits [fix.edit] = some text' ∧
      ((diagnose text' isSystemFile view' options).filter isDeadCode =
          (before ++ after).map (movedUp d.range.start.line) ↔
        (text.PartsBreaks d.range.start.line → after = []) ∧
          ∀ raw, text.lines.drop d.range.start.line = [raw] → isLost (remainder raw) = false) := by
  rw [filter_isDeadCode] at h
  obtain ⟨_, _, hplaces, rfl, hrest⟩ := map_eq_append_iff.mp h
  obtain ⟨_, _, rfl, rfl, rfl⟩ := map_eq_cons_iff.mp hrest
  obtain ⟨above, raw, below, hlines, hdead, hlost, rfl, rfl, rfl⟩ := exists_of_deadPlaces hplaces
  rw [Nat.zero_add]
  have hline : (deadCode options.locale (codePlace above.length raw)).range.start.line =
      above.length := rfl
  rw [hline]
  have hdrop : text.lines.drop above.length = raw :: below := by rw [hlines, List.drop_left]
  -- The last line is emptied up to its code, any other goes with the break behind it.
  cases below with
  | nil =>
    obtain ⟨text', happly, htext'⟩ := exists_applyEdits_cut (a := takeBytes (codeEnd raw) raw)
      (b := remainder raw) (by rw [hlines, remainder, takeBytes_append_dropBytes])
    have hlast : ¬ above.length + 1 < text.lines.length := by simp [hlines]
    refine ⟨_, text', QuickFix.offer_deadCode .., ?_, ?_⟩
    · rw [if_neg hlast]
      exact happly
    · rw [filter_isDeadCode_eq_iff hdead htext', hdrop]
      simp [deadPlaces, PartsBreaks, hlines]
  | cons next below =>
    have hne : above.length ≠ 0 := by
      rintro hnil
      rw [eq_nil_of_length_eq_zero hnil] at hdead
      cases hdead
    have hmore : above.length + 1 < text.lines.length := by simp [hlines]
    obtain ⟨text', happly, htext'⟩ := exists_applyEdits_remove hne hmore
    refine ⟨_, text', QuickFix.offer_deadCode .., ?_, ?_⟩
    · rw [if_pos hmore]
      exact happly
    · have hothers : ∀ raw', raw :: next :: below = [raw'] → isLost (remainder raw') = false :=
        fun raw' h => by cases h
      rw [hdrop, and_iff_left hothers]
      by_cases hparts : text.PartsBreaks above.length
      · rw [if_pos hparts, hlines, take_left, List.drop_length_add_append] at htext'
        obtain rfl : next = [] := by simpa [hlines] using hparts.2.1
        rw [filter_isDeadCode_eq_iff hdead htext', imp_iff_right hparts, map_eq_nil_iff,
          deadPlaces_nil_cons, deadPlaces_nil_cons, deadPlaces_succ _ (above.length + 1),
          map_eq_nil_iff]
        exact deadPlaces_succ_eq_iff
      · rw [if_neg hparts, hlines, take_left, List.drop_length_add_append] at htext'
        rw [filter_isDeadCode_eq_iff hdead htext']
        simp [hparts]

example : Text.PartsBreaks "RETURN\rx = 1\n\ny = 2".toList 1 := by
  decide

/-- With an empty line and a comment below the statement, the one at the end moves up. -/
theorem dead_statements_after_removing_first :
    let text : Text := "RETURN\nx = 1\n\n; c\ny = \"a\"".toList
    let options : Options := {}
    let d := deadCode options.locale (codePlace 1 "x = 1".toList)
    let after := [deadCode options.locale (codePlace 4 "y = \"a\"".toList)]
    (diagnose text false {} options).filter isDeadCode = d :: after ∧
      ∃ fix text', QuickFix.offer text [d] = [fix] ∧ text.applyEdits [fix.edit] = some text' ∧
        (diagnose text' false {} options).filter isDeadCode = after.map (movedUp 1) := by
  intro text options d after
  have hplaces : deadPlaces false 0 text.lines =
      [codePlace 1 "x = 1".toList, codePlace 4 "y = \"a\"".toList] := by
    decide +kernel
  have h : (diagnose text false {} options).filter isDeadCode = [] ++ d :: after := by
    rw [filter_isDeadCode, hplaces]
    rfl
  obtain ⟨fix, text', hoffer, happly, hiff⟩ := dead_statements_after_removing h {}
  refine ⟨h, fix, text', hoffer, happly, hiff.mpr ⟨fun hparts => ?_, fun raw hraw => ?_⟩⟩
  · exact absurd hparts (by decide +kernel)
  · have hlength : (text.lines.drop 1).length = 4 := by decide +kernel
    cases (congrArg List.length hraw).symm.trans hlength

/-- A string at the end of the last line is left, and reported again. -/
theorem dead_statement_left_in_last_line :
    let text : Text := "RETURN\nmsg = \"abc\"".toList
    let options : Options := {}
    let d := deadCode options.locale (codePlace 1 "msg = \"abc\"".toList)
    (diagnose text false {} options).filter isDeadCode = [d] ∧
      ∃ fix text', QuickFix.offer text [d] = [fix] ∧ text.applyEdits [fix.edit] = some text' ∧
        text' = "RETURN\n \"abc\"".toList ∧
        (diagnose text' false {} options).filter isDeadCode =
          [deadCode options.locale ⟨⟨1, 6⟩, ⟨1, 6⟩⟩] := by
  intro text options d
  have hplaces : deadPlaces false 0 text.lines = [codePlace 1 "msg = \"abc\"".toList] := by
    decide +kernel
  have hleft : deadPlaces false 0 (lines "RETURN\n \"abc\"".toList) = [⟨⟨1, 6⟩, ⟨1, 6⟩⟩] := by
    decide +kernel
  refine ⟨?_, _, _, QuickFix.offer_deadCode .., ?_, rfl, ?_⟩
  · rw [filter_isDeadCode, hplaces]
    rfl
  · decide +kernel
  · rw [filter_isDeadCode, hleft]
    rfl

end KrlWorkbench
