import KrlWorkbench.Editing.QuickFix
import KrlWorkbench.Proofs.Finding.CommentIndependence
import KrlWorkbench.Proofs.Finding.RepeatedNames
import KrlWorkbench.Proofs.Finding.WorkspaceKnowledge
import KrlWorkbench.Proofs.Scope.InnermostBlock
import KrlWorkbench.Proofs.Symbol.DeclarationLists
import KrlWorkbench.Proofs.Symbol.FirstDeclaration
import KrlWorkbench.Proofs.Text.LineEdits

/-!
# Declaring an undeclared name

The fix for an undeclared name puts a line that declares it into the document.  Then the name is
known, and its findings are gone.  Nothing else may change: the other findings about undeclared
names are still there, in their order, and those below the new line have moved down by one.

That the new line is a line of its own is `QuickFix.exists_inserted`.  What it does to the rest is
said without the fix, for any line that declares one variable and does nothing else
(`DeclaresOnly`): it defines no type and is no label, so every other line is of the same kind as
before, and of what is known only its name is new (`Inserted.isKnown`).
-/

namespace KrlWorkbench

open List Code Context LineRule SymbolTable Text

/-! ## The names of a line -/

lemma Symbol.map_profile_ofLine (t t' : Text) (types : List Text) (i i' : Nat) (code : Text) :
    (ofLine t types i code).map profile = (ofLine t' types i' code).map profile := by
  rcases profile_ofLine (List.Subset.refl types) t t' i i' code with hsame | ⟨hnil, -⟩
  · exact hsame
  · rcases profile_ofLine (List.Subset.refl types) t' t i' i code with hsame | ⟨hnil', -⟩
    · exact hsame.symm
    · rw [hnil, hnil']

lemma Symbol.map_name_ofLine (t t' : Text) (types : List Text) (i i' : Nat) (code : Text) :
    (ofLine t types i code).map (·.name) = (ofLine t' types i' code).map (·.name) := by
  have hnames := congrArg (List.map (·.1)) (map_profile_ofLine t t' types i i' code)
  rwa [map_map, map_map] at hnames

lemma Routine.map_name_ofHeader? (t t' code : Text) (i i' : Nat) :
    (ofHeader? t code i).map (·.name) = (ofHeader? t' code i').map (·.name) := by
  have hname : ∀ t i, (ofHeader? t code i).map (·.name) = (headerName? code).map (·.text) := by
    intro t i
    have hparts := congrArg (Option.map (·.1)) (map_ofHeader? t code i)
    rwa [Option.map_map, Option.map_map] at hparts
  rw [hname, hname]

/-- The names that a line declares, whichever document it stands in. -/
def declaredNames (types : List Text) (raw : Text) : List Text :=
  let code := codePart raw
  (if allBlank code then []
    else (Symbol.ofLine [] types 0 code).map (·.name) ++
      ((Routine.ofHeader? [] code 0).map (·.name)).toList) ++
    ((typeDefinition.find? code).map (·.text 4)).toList

lemma declares_iff {text m : Text} :
    Declares text m ↔
      ∃ raw ∈ text.lines, m ∈ declaredNames (TypeDefinition.keysOf text.lines) raw := by
  constructor
  · intro h
    cases h with
    -- Names do not depend on the document or the number of the line.
    | @symbol line code s hline hs =>
      obtain ⟨raw, hraw, rfl, hsolid⟩ := mem_codeLines_iff.mp hline
      refine ⟨raw, mem_of_getElem? hraw, ?_⟩
      have hname := mem_map_of_mem (f := (·.name)) hs
      rw [Symbol.map_name_ofLine text [] _ line 0] at hname
      simp [declaredNames, hsolid, mem_map.mp hname]
    | @routine line code r hline hr =>
      obtain ⟨raw, hraw, rfl, hsolid⟩ := mem_codeLines_iff.mp hline
      refine ⟨raw, mem_of_getElem? hraw, ?_⟩
      have hname := Routine.map_name_ofHeader? text [] (codePart raw) line 0
      rw [hr, Option.map_some] at hname
      simp [declaredNames, hsolid, ← hname]
    | @type raw found hraw hfound => exact ⟨raw, hraw, by simp [declaredNames, hfound]⟩
  · rintro ⟨raw, hraw, hm⟩
    obtain ⟨line, hline⟩ := getElem?_of_mem hraw
    rw [declaredNames, mem_append] at hm
    rcases hm with hm | hm
    · split at hm
      case isTrue => cases hm
      case isFalse hsolid =>
        have hcode : (line, codePart raw) ∈ codeLines text :=
          mem_codeLines_iff.mpr ⟨raw, hline, rfl, by simpa using hsolid⟩
        rw [mem_append, Symbol.map_name_ofLine [] text _ 0 line,
          Routine.map_name_ofHeader? [] text _ 0 line, Option.mem_toList] at hm
        rcases hm with hm | hm
        · obtain ⟨s, hs, rfl⟩ := mem_map.mp hm
          exact .symbol hcode hs
        · obtain ⟨r, hr, rfl⟩ := Option.map_eq_some_iff.mp hm
          exact .routine hcode hr
    · obtain ⟨found, hfound, rfl⟩ := Option.map_eq_some_iff.mp (Option.mem_toList.mp hm)
      exact .type hraw hfound

/-! ## A line that declares one variable -/

/-- Whatever types are known, all that the line does is to declare a name. -/
structure DeclaresOnly (raw n : Text) : Prop where
  names : ∀ types, declaredNames types raw = [n]
  definition : typeDefinition.find? (codePart raw) = none
  kind : ∀ types, LineKind.ofLine types raw ≠ .usage
  label : label.holds (clean raw) = false

lemma LineRule.mem_of_holds_label {code : Text} (h : label.holds code = true) : ':' ∈ code := by
  obtain ⟨u, v, found, rfl, hfits⟩ := exists_fits_of_holds rfl h
  obtain ⟨_, _, _, _, rfl, -, hfits, -⟩ := hfits.exists_of_append
  obtain ⟨_, _, _, _, rfl, -, hfits, -⟩ := hfits.exists_of_append
  obtain ⟨_, _, _, _, rfl, -, -, hcolon⟩ := hfits.exists_of_append
  cases hcolon with
  | one _ hc => simp [beq_iff_eq.mp hc]

/-- The line that the fix writes. -/
def declaringLine (indent n : Text) : Text :=
  indent ++ "DECL INT ".toList ++ n

section DeclaringLine

variable {indent n : Text} (hindent : IsBlanks indent) (hn : isIdentifier n = true)

lemma declaringLine_eq (indent n : Text) : declaringLine indent n =
    indent ++ ("DECL".toList ++ ([' '] ++ ("INT".toList ++ ([' '] ++ n)))) := by
  simp [declaringLine]

include hindent hn

lemma isCode_declaringLine (hbreak : NoBreak indent) : IsCode (declaringLine indent n) := by
  have hblank : IsCode indent :=
    isCode_of_isBlank_or_isWordChar (fun c hc => .inl (hindent c hc)) hbreak
  exact (hblank.append (isCode_of_forall (by decide))).append (isWord_of_isIdentifier hn).isCode

lemma isBlank_or_isWordChar {c : Char} (hc : c ∈ declaringLine indent n) :
    isBlank c = true ∨ isWordChar c = true := by
  have hlead : ∀ c ∈ "DECL INT ".toList, isBlank c = true ∨ isWordChar c = true := by decide
  rw [declaringLine, append_assoc, mem_append, mem_append] at hc
  rcases hc with hc | hc | hc
  · exact .inl (hindent c hc)
  · exact hlead c hc
  · exact .inr ((isWord_of_isIdentifier hn).chars c hc)

lemma declaresOnly_declaringLine (hbreak : NoBreak indent) :
    DeclaresOnly (declaringLine indent n) n := by
  have hcode := isCode_declaringLine hindent hn hbreak
  have hword := isWord_of_isIdentifier hn
  have hsolid : allBlank (declaringLine indent n) = false := by
    simp [declaringLine, allBlank, show isBlank 'D' = false by decide]
  have hlist : IsRun isSolid isInLine n := by
    obtain ⟨c, rest, rfl⟩ := exists_cons_of_ne_nil hword.ne_nil
    exact ⟨c, rest, rfl, isSolid_of_isWordChar (hword.chars c mem_cons_self),
      fun d hd => isInLine_of_isWordChar (hword.chars d (mem_cons_of_mem _ hd))⟩
  have hread := fun types => Symbol.ofLine_decl (T := "INT".toList) hindent (by decide) (by decide)
    isBlanks_space (by simp) isBlanks_space (by simp) hlist [] types 0
  have hparts := fun types => TypedList.ofCode?_decl (T := "INT".toList) hindent (by decide)
    (by decide) isBlanks_space (by simp) isBlanks_space (by simp) hlist types
  simp only [← declaringLine_eq] at hread hparts
  -- The list is a single name, so reading it back gives that name.
  have hnames : namesIn itemName n = [n] := by
    have hnone : ∀ c ∈ ([] : Text), c = ' ' ∨ c = '\t' := by simp
    let d : Declarator := ⟨n, none, none, hn, by simp, by simp, by simp, by simp⟩
    let s : Spacing := ⟨⟨[], hnone⟩, ⟨[], hnone⟩, ⟨[], hnone⟩, ⟨[], hnone⟩, ⟨[], hnone⟩⟩
    have hprint : d.print s = n := by simp [Declarator.print, Declarator.indexText,
      Declarator.initialText, d, s]
    have hwhole := d.isWhole_print s
    have hname := d.itemName_print s
    rw [hprint] at hwhole hname
    have hitems : ListItem.Items [n] := ListItem.items_of_isWhole (by simp) (by simpa using hwhole)
    have hpieces := ListItem.pieces_intercalate hitems
    rw [intercalate_singleton] at hpieces
    simp [namesIn, hpieces, hname, d, hn]
  constructor
  case names =>
    intro types
    obtain ⟨hheader, hdefinition, hsymbols⟩ := hread types
    rw [declaredNames, hcode.codePart_eq, hsolid, hheader, hdefinition, hsymbols,
      Symbol.map_name_ofTypedList, hnames]
    rfl
  case definition =>
    rw [hcode.codePart_eq]
    exact (hread []).2.1
  case kind =>
    intro types husage
    rw [LineKind.ofLine_eq_of_not_allBlank types (by rwa [hcode.codePart_eq]), hcode.codePart_eq]
      at husage
    split_ifs at husage
    have hnone := LineKind.ofCode?_eq_none_of_usage husage
    rw [hparts types] at hnone
    cases hnone
  case label =>
    have hquote : '"' ∉ declaringLine indent n := fun hmem =>
      absurd (isBlank_or_isWordChar hindent hn hmem) (by decide)
    rw [clean, hcode.codePart_eq, mask, maskFrom_false_of_not_mem hquote, Bool.eq_false_iff]
    intro hlabel
    exact absurd (isBlank_or_isWordChar hindent hn (mem_of_holds_label hlabel)) (by decide)

end DeclaringLine

/-! ## A document with one line more -/

/-- The number of a line in a document with a new line `k`. -/
def lineBelow (k i : Nat) : Nat :=
  if k ≤ i then i + 1 else i

/-- The place in a document with a new line `k`. -/
def Position.movedDown (k : Nat) (p : Position) : Position :=
  { p with line := lineBelow k p.line }

/-- The range in a document with a new line `k`. -/
def Range.movedDown (k : Nat) (r : Range) : Range :=
  ⟨r.start.movedDown k, r.stop.movedDown k⟩

/-- The second text has one line more than the first, as its line `k`. -/
structure Inserted (text : Text) (k : Nat) (new text' : Text) : Prop where
  le_length : k ≤ text.lines.length
  lines : text'.lines = text.lines.take k ++ new :: text.lines.drop k

namespace Inserted

variable {text text' new n : Text} {k : Nat} (h : Inserted text k new text')
include h

lemma getElem?_lineBelow (i : Nat) : text'.lines[lineBelow k i]? = text.lines[i]? := by
  have hlength : (text.lines.take k).length = k := length_take_of_le h.le_length
  rw [h.lines, lineBelow]
  split
  case isTrue hi =>
    rw [getElem?_append_right (by omega), hlength, Nat.succ_sub hi, getElem?_cons_succ,
      getElem?_drop, Nat.add_sub_cancel' hi]
  case isFalse hi =>
    rw [getElem?_append_left (by omega), getElem?_take, if_pos (by omega)]

lemma span_eq {i column length : Nat} {raw : Text} (hraw : text.lines[i]? = some raw)
    (hlen : column + length ≤ byteLength raw) :
    text'.span (lineBelow k i) column length = (text.span i column length).movedDown k := by
  rw [Text.span_eq hraw hlen, Text.span_eq ((h.getElem?_lineBelow i).trans hraw) hlen]
  rfl

/-- The lines with their numbers: those above the new one and those below it, which have moved. -/
lemma exists_zipIdx_eq : ∃ above below, text.lines.zipIdx = above ++ below ∧
    text'.lines.zipIdx = above.map (fun e => (e.1, lineBelow k e.2)) ++
      (new, k) :: below.map fun e => (e.1, lineBelow k e.2) := by
  have hlength : (text.lines.take k).length = k := length_take_of_le h.le_length
  refine ⟨(text.lines.take k).zipIdx, (text.lines.drop k).zipIdx k, ?_, ?_⟩
  · conv_lhs => rw [← take_append_drop k text.lines, zipIdx_append, hlength, Nat.zero_add]
  · have habove : (text.lines.take k).zipIdx.map (fun e => (e.1, lineBelow k e.2)) =
        (text.lines.take k).zipIdx := by
      refine (map_congr_left (g := id) fun e he => ?_).trans (map_id _)
      have hlt := snd_lt_of_mem_zipIdx he
      rw [hlength, Nat.add_zero] at hlt
      simp [lineBelow, Nat.not_le.mpr hlt]
    have hbelow : ((text.lines.drop k).zipIdx k).map (fun e => (e.1, lineBelow k e.2)) =
        (text.lines.drop k).zipIdx (k + 1) := by
      rw [zipIdx_succ]
      refine map_congr_left fun e he => ?_
      simp [lineBelow, le_snd_of_mem_zipIdx he]
    rw [h.lines, zipIdx_append, zipIdx_cons, habove, hbelow, hlength, Nat.zero_add]

lemma mem_lines {raw : Text} : raw ∈ text'.lines ↔ raw = new ∨ raw ∈ text.lines := by
  rw [h.lines, mem_append, mem_cons, or_left_comm, ← mem_append, take_append_drop]

/-- What is gathered from lines, when the new one adds nothing. -/
lemma filterMap_lines {α : Type} {f : Text → Option α} (hf : f new = none) :
    text'.lines.filterMap f = text.lines.filterMap f := by
  rw [h.lines, filterMap_append, filterMap_cons_none hf, ← filterMap_append, take_append_drop]

section Declaration

variable (hnew : DeclaresOnly new n)
include hnew

lemma keysOf_eq : TypeDefinition.keysOf text'.lines = TypeDefinition.keysOf text.lines :=
  h.filterMap_lines (by rw [hnew.definition]; rfl)

lemma types_eq (view : WorkspaceView) : (ofText text' view).types = (ofText text view).types := by
  have hcollect : TypeDefinition.collect text' [] = TypeDefinition.collect text [] := by
    rw [TypeDefinition.collect, TypeDefinition.collect, h.keysOf_eq hnew]
    refine congrArg (List.foldl _ _) (h.filterMap_lines ?_)
    rw [TypeDefinition.ofLine?, hnew.definition]
    rfl
  rw [ofText, ofText]
  simp only [collect, hcollect]

lemma labels_eq (view : WorkspaceView) :
    Finding.labels (ofText text' view) = Finding.labels (ofText text view) := by
  have hlabels : ∀ text, Finding.labels (ofText text view) =
      text.lines.filterMap fun raw => if label.holds (clean raw) then
        (blankSeparated (trimEnd (dropEndWhile (· == ':') (trim (clean raw))))).head?.map upper
      else none := by
    intro text
    rw [Finding.labels, ofText, filterMap_map]
    conv_rhs => rw [← zipIdx_map_fst 0 text.lines, filterMap_map]
    rfl
  rw [hlabels, hlabels]
  exact h.filterMap_lines (by rw [hnew.label]; rfl)

/-- Of all names only the one that the line declares has become known. -/
lemma isKnown (view : WorkspaceView) (m : Text) :
    (ofText text' view).isKnown m = ((ofText text view).isKnown m || sameName m n) := by
  have hkeys : upper m ∈ (collect text').declaredKeys ↔
      upper m ∈ (collect text).declaredKeys ∨ upper m = upper n := by
    simp only [mem_declaredKeys_iff, declares_iff, h.keysOf_eq hnew, h.mem_lines,
      hnew.names, mem_singleton, or_and_right, exists_or, exists_eq_left]
    rw [or_comm, eq_comm]
  have hdeclared : ∀ text, (ofText text view).declared =
      (collect text).declaredKeys ++ (ofText text view).types ++
        view.declaredKeys := fun _ => rfl
  rw [Bool.eq_iff_iff, Context.isKnown, Context.isKnown, hdeclared, hdeclared, h.types_eq hnew]
  simp only [Bool.or_eq_true, contains_iff_mem, mem_append, hkeys, sameName, beq_iff_eq]
  by_cases hsame : upper m = upper n
  · simp only [hsame, or_true, true_or]
  · simp only [hsame, or_false]

end Declaration

end Inserted

/-! ## The findings about undeclared names -/

/-- The finding in a document with a new line `k`. -/
def Finding.movedDown (k : Nat) (f : Finding) : Finding :=
  { f with range := f.range.movedDown k }

/-- Whether a finding says that the name is not declared. -/
def Finding.isUndeclaredName (n : Text) (f : Finding) : Bool :=
  match f.cause with
  | .undefinedVariable m => sameName m n
  | _ => false

lemma Finding.isUndeclaredName_mk (n m : Text) (range : Range) :
    isUndeclaredName n ⟨range, .undefinedVariable m⟩ = sameName m n :=
  rfl

namespace Inserted

open Finding

variable {text text' new n : Text} {k : Nat} (h : Inserted text k new text')
  (hnew : DeclaresOnly new n)
include h hnew

lemma isUndeclared_eq (view : WorkspaceView) (labels : List Text) (code : Text)
    (previous : Option Token) (token : Token) :
    isUndeclared (ofText text' view) labels code previous token =
      (isUndeclared (ofText text view) labels code previous token &&
        !sameName token.text n) := by
  rw [isUndeclared, isUndeclared, h.isKnown hnew]
  cases sameName token.text n <;> simp

/-- **One line.**  Its findings are those for other names, moved with the line. -/
lemma undeclaredIn_eq (view : WorkspaceView) (labels : List Text) {i : Nat} {raw : Text}
    (hraw : text.lines[i]? = some raw) (kind : LineKind) :
    undeclaredIn (ofText text' view) labels
        ⟨lineBelow k i, raw, clean raw, kind⟩ =
      ((undeclaredIn (ofText text view) labels ⟨i, raw, clean raw, kind⟩).filter
        (!·.isUndeclaredName n)).map (Finding.movedDown k) := by
  by_cases hskipped : (kind != .usage || label.holds (clean raw)) = true
  · rw [undeclaredIn, undeclaredIn, if_pos hskipped, if_pos hskipped]
    rfl
  · rw [undeclaredIn, undeclaredIn, if_neg hskipped, if_neg hskipped, filter_filterMap,
      map_filterMap]
    refine filterMap_congr fun entry hentry => ?_
    obtain ⟨before, after, hsplit, hstart, hlength⟩ :=
      Token.exists_piece_of_mem_tokens_clean (mem_of_mem_withPrevious hentry)
    have hspan : (ofText text' view).span (lineBelow k i) entry.2.start
        (entry.2.stop - entry.2.start) = ((ofText text view).span i entry.2.start
          (entry.2.stop - entry.2.start)).movedDown k := by
      refine h.span_eq hraw ?_
      rw [hsplit, hlength, hstart]
      simp
    dsimp only
    rw [h.isUndeclared_eq hnew, hspan]
    cases isUndeclared (ofText text view) labels (clean raw) entry.1 entry.2 with
    | false => rfl
    | true =>
      cases hsame : sameName entry.2.text n <;>
        simp [Option.filter_some, isUndeclaredName_mk, hsame, movedDown]

/-- **The whole document.**  What is left are the findings for other names. -/
lemma undeclared_eq (view : WorkspaceView) :
    undeclared (ofText text' view) =
      ((undeclared (ofText text view)).filter (!·.isUndeclaredName n)).map
        (Finding.movedDown k) := by
  obtain ⟨above, below, hold, hnow⟩ := h.exists_zipIdx_eq
  have hlines : ∀ text, (ofText text view).lines = text.lines.zipIdx.map fun entry =>
      ⟨entry.2, entry.1, clean entry.1,
        LineKind.ofLine (ofText text view).types entry.1⟩ := fun _ => rfl
  have hnone : undeclaredIn (ofText text' view) (labels (ofText text view))
      ⟨k, new, clean new, LineKind.ofLine (ofText text view).types new⟩ = [] := by
    rw [undeclaredIn, if_pos (by simp [hnew.kind])]
  have hentry : ∀ entry ∈ text.lines.zipIdx, text.lines[entry.2]? = some entry.1 :=
    fun entry he => mem_zipIdx_iff_getElem?.mp he
  rw [hold] at hentry
  rw [undeclared, undeclared, h.labels_eq hnew, hlines text', hlines text, h.types_eq hnew, hnow,
    hold, filter_flatMap, map_flatMap]
  simp only [map_append, map_cons, map_map, flatMap_append, flatMap_cons,
    flatMap_map, hnone, nil_append, Function.comp_apply]
  congr 1
  all_goals exact flatMap_congr fun entry he =>
    h.undeclaredIn_eq hnew view _ (hentry entry (by simp [he])) _

end Inserted

/-! ## The fix -/

lemma declaringLine_ne_nil (indent n : Text) : declaringLine indent n ≠ [] := by
  simp [declaringLine]

/-- **The fix adds a line.**  It declares the name and stands at the top, or below the header of the
block around the finding, which may be the last line of the document. -/
lemma QuickFix.exists_inserted {text raw n : Text} {d : Diagnostic}
    (hraw : text.lines[d.range.start.line]? = some raw) (hname : d.dataText? "varName" = some n)
    (hn : isIdentifier n = true) :
    ∃ fix text' k new, forUndefined text d = [fix] ∧ text.applyEdits [fix.edit] = some text' ∧
      Inserted text k new text' ∧ DeclaresOnly new n := by
  have hindent : IsBlanks (raw.takeWhile isBlank) := fun c hc => mem_takeWhile_imp hc
  have hbreak : NoBreak (raw.takeWhile isBlank) :=
    (noBreak_of_mem_lines (mem_of_getElem? hraw)).of_subset (takeWhile_sublist _).subset
  have hinsert : ∀ {k : Nat} {indent : Text}, IsBlanks indent → NoBreak indent →
      k < text.lines.length → ∃ text',
        text.applyEdits [⟨text.span k 0 0, declaringLine indent n ++ ['\n']⟩] = some text' ∧
          Inserted text k (declaringLine indent n) text' := by
    intro k indent hindent hbreak hk
    obtain ⟨text', happly, hlines⟩ := exists_applyEdits_insert hk
      (isCode_declaringLine hindent hn hbreak).noBreak (declaringLine_ne_nil indent n)
    exact ⟨text', happly, hk.le, hlines⟩
  -- Outside all blocks the line goes to the top, else below the header of the block.
  cases hwindow : Window.around? text.lines d.range.start.line with
  | none =>
    have hpos := length_pos_iff.mpr (lines_ne_nil text)
    obtain ⟨text', happly, hinserted⟩ := hinsert isBlanks_nil noBreak_nil hpos
    simp only [forUndefined, hname, hraw, hwindow, if_pos hpos]
    exact ⟨_, text', 0, _, rfl, happly, hinserted,
      declaresOnly_declaringLine isBlanks_nil hn noBreak_nil⟩
  | some w =>
    have honly := declaresOnly_declaringLine hindent hn hbreak
    by_cases hlt : w.start + 1 < text.lines.length
    · obtain ⟨text', happly, hinserted⟩ := hinsert hindent hbreak hlt
      simp only [forUndefined, hname, hraw, hwindow, if_pos hlt]
      exact ⟨_, text', _, _, rfl, happly, hinserted, honly⟩
    · -- The header is the last line, and as a header it is not empty.
      obtain ⟨hstart, hstop, hlength, hopener⟩ := Window.bounds_of_ofMarks? hwindow
      rw [length_map] at hlength
      rw [getElem?_map, Option.map_eq_some_iff] at hopener
      obtain ⟨header, hheader, hopener⟩ := hopener
      have hlast : text.lines.getLast? ≠ some [] := by
        rw [getLast?_eq_getElem?, show text.lines.length - 1 = w.start by omega, hheader]
        rintro heq
        obtain rfl := Option.some.inj heq
        exact absurd hopener (by decide)
      obtain ⟨text', happly, hlines⟩ := exists_applyEdits_append hlast
        (isCode_declaringLine hindent hn hbreak).noBreak
      simp only [forUndefined, hname, hraw, hwindow, if_neg hlt]
      exact ⟨_, text', text.lines.length, _, rfl, happly, ⟨le_rfl, by simpa using hlines⟩, honly⟩

/-! ## Diagnostics -/

namespace Diagnostic

/-- The diagnostic in a document with a new line `k`. -/
def movedDown (k : Nat) (d : Diagnostic) : Diagnostic :=
  { d with range := d.range.movedDown k }

lemma dataText?_ofFinding (locale : Locale) (range : Range) (m : Text) :
    (ofFinding locale ⟨range, .undefinedVariable m⟩).dataText? "varName" = some m := by
  simp [dataText?, ofFinding, Cause.data, Json.get?, Json.str?, Json.ofText]

end Diagnostic

/-- What is reported as undeclared is an identifier of a line. -/
lemma Finding.exists_line_of_mem_undeclared {text : Text} {view : WorkspaceView} {f : Finding}
    (hf : f ∈ undeclared (ofText text view)) :
    ∃ m raw, f.cause = .undefinedVariable m ∧ isIdentifier m = true ∧
      text.lines[f.range.start.line]? = some raw := by
  obtain ⟨line, hline, hin⟩ := mem_flatMap.mp hf
  obtain ⟨token, htoken, rfl⟩ := exists_token_of_mem_undeclaredIn hin
  obtain ⟨hraw, hcode⟩ := getElem?_of_mem_lines hline
  rw [hcode] at htoken
  obtain ⟨before, after, hsplit, hstart, hlength⟩ := Token.exists_piece_of_mem_tokens_clean htoken
  have hspan : tokenRange (ofText text view) line token = _ :=
    Text.span_eq hraw (by rw [hsplit, hlength, hstart]; simp)
  refine ⟨token.text, line.raw, rfl, (unknown_of_mem_undeclared hf rfl).2, ?_⟩
  rw [hspan]
  exact hraw

/-- **Declaring a name mends its findings and no others.** For a diagnostic about an undeclared name
one fix is offered.  Its edit applies and puts a line into the document, and the diagnostics about
undeclared names are then those there were for other names, in the same order and with the same
columns; those at and below the new line have moved down by one. -/
theorem undeclared_names_after_declaring {text : Text} {isSystemFile : Bool} {view : WorkspaceView}
    {options : Finding.Options} {d : Diagnostic} {n : Text}
    (hd : d ∈ diagnose text isSystemFile view options) (hcode : d.isUndeclaredName = true)
    (hname : d.dataText? "varName" = some n) :
    ∃ fix text' k new, QuickFix.offer text [d] = [fix] ∧
      text.applyEdits [fix.edit] = some text' ∧ k ≤ text.lines.length ∧
      text'.lines = text.lines.take k ++ new :: text.lines.drop k ∧
      (diagnose text' isSystemFile view options).filter Diagnostic.isUndeclaredName =
        ((diagnose text isSystemFile view options).filter fun e =>
          !e.isAbout n && e.isUndeclaredName).map (Diagnostic.movedDown k) := by
  have hmem := mem_filter.mpr ⟨hd, hcode⟩
  rw [filter_diagnose] at hmem
  obtain ⟨f, hf, rfl⟩ := mem_map.mp hmem
  cases isSystemFile with
  | true => cases hf
  | false =>
    rw [if_neg Bool.false_ne_true] at hf
    obtain ⟨m, raw, hcause, hidentifier, hraw⟩ := Finding.exists_line_of_mem_undeclared hf
    obtain ⟨range, cause⟩ := f
    obtain rfl : cause = .undefinedVariable m := hcause
    obtain rfl : m = n := by simpa [Diagnostic.dataText?_ofFinding] using hname
    obtain ⟨fix, text', k, new, hfix, happly, hinserted, honly⟩ :=
      QuickFix.exists_inserted hraw hname hidentifier
    refine ⟨fix, text', k, new, ?_, happly, hinserted.le_length, hinserted.lines, ?_⟩
    · rw [QuickFix.offer, flatMap_singleton]
      exact hfix
    · rw [← filter_filter, filter_diagnose, filter_diagnose, if_neg Bool.false_ne_true,
        if_neg Bool.false_ne_true, hinserted.undeclared_eq honly, filter_map, map_map, map_map]
      -- The data of a finding tell which name it is about.
      refine congrArg (List.map _) (filter_congr fun g hg => ?_)
      obtain ⟨m', _, hcause, -, -⟩ := Finding.exists_line_of_mem_undeclared hg
      obtain ⟨range', cause⟩ := g
      obtain rfl : cause = .undefinedVariable m' := hcause
      rw [Function.comp_apply, Diagnostic.isAbout, Diagnostic.dataText?_ofFinding]
      rfl

/-- A name that is used twice, in either case.  Of the two other findings one stands above the new
line and one below it. -/
theorem undeclared_names_after_declaring_twice :
    let text : Text := "x = 1\nDEF p()\n  a = b\n  A = 2\nEND".toList
    let d := Diagnostic.ofFinding .english ⟨⟨⟨2, 2⟩, ⟨2, 3⟩⟩, .undefinedVariable ['a']⟩
    d ∈ diagnose text false {} {} ∧ d.isUndeclaredName = true ∧
      d.dataText? "varName" = some ['a'] ∧
    ∃ fix text' k new, QuickFix.offer text [d] = [fix] ∧
      text.applyEdits [fix.edit] = some text' ∧ k ≤ text.lines.length ∧
      text'.lines = text.lines.take k ++ new :: text.lines.drop k ∧
      (diagnose text' false {} {}).filter Diagnostic.isUndeclaredName =
        ((diagnose text false {} {}).filter fun e =>
          !e.isAbout ['a'] && e.isUndeclaredName).map (Diagnostic.movedDown k) := by
  intro text d
  have hd : d ∈ diagnose text false {} {} := by
    obtain ⟨⟨range, cause⟩, hf, hrange, hname⟩ :
        ∃ f ∈ Finding.undeclared (Context.ofText text {}), f.range = ⟨⟨2, 2⟩, ⟨2, 3⟩⟩ ∧
          (Diagnostic.ofFinding .english f).dataText? "varName" = some ['a'] := by decide +kernel
    obtain ⟨m, _, hcause, -, -⟩ := Finding.exists_line_of_mem_undeclared hf
    obtain rfl : cause = .undefinedVariable m := hcause
    obtain rfl : range = ⟨⟨2, 2⟩, ⟨2, 3⟩⟩ := hrange
    obtain rfl : m = ['a'] := by simpa [Diagnostic.dataText?_ofFinding] using hname
    have hmem : d ∈ (diagnose text false {} {}).filter Diagnostic.isUndeclaredName := by
      rw [filter_diagnose, if_neg Bool.false_ne_true]
      exact mem_map_of_mem hf
    exact mem_of_mem_filter hmem
  exact ⟨hd, rfl, rfl, undeclared_names_after_declaring hd rfl rfl⟩

end KrlWorkbench
