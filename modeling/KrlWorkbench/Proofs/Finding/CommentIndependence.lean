import KrlWorkbench.Proofs.Finding.CheckCodes

/-!
# Comments and line ends say nothing to the checks

Two documents with the same code get the same diagnostics, except for the warnings about
characters outside ASCII, which look into comments on purpose.

Documents with the same code agree in all that the checks read (`Context.agrees_of_sameCode`): their
symbols, and line by line the code, whether the line counts as code, whether it uses names, and the
ranges inside its code.
-/

namespace KrlWorkbench

open List Code LineKind LineRule Text

variable {raw t t' : Text}

/-! ## Kinds of line -/

namespace LineKind

lemma isCode_of_allBlank (types : List Text) (h : allBlank (codePart raw) = true) :
    (ofLine types raw).isCode = false ∧ ofLine types raw ≠ .usage := by
  rw [ofLine]
  split_ifs <;> exact ⟨rfl, by simp⟩

lemma ofLine_eq_of_not_allBlank (types : List Text) (h : allBlank (codePart raw) = false) :
    ofLine types raw =
      if (trim (codePart raw)).head? == some ';' ||
        (trim (codePart raw)).head? == some '&'
      then .comment else ofCode types (codePart raw) := by
  obtain ⟨hhead, hne⟩ := head?_trim_of_isPrefix (codePart_isPrefix raw) h
  have hne' : (trim raw).isEmpty = false := by simpa using hne
  simp only [ofLine, hne', h, hhead, Bool.false_eq_true, if_false]

end LineKind

/-! ## Documents with the same code -/

lemma SourceLine.agrees_of_codePart {types : List Text} {i : Nat} {raw' : Text} {ctx ctx' : Context}
    (h : codePart raw = codePart raw') (hspans : SameSpans ctx.text ctx'.text i (codePart raw)) :
    SourceLine.Agrees id ctx ctx' ⟨i, raw, clean raw, ofLine types raw⟩
      ⟨i, raw', clean raw', ofLine types raw'⟩ := by
  have hclean : clean raw' = (clean raw).map id := by rw [clean, clean, h, map_id]
  have hspans' : SameSpans ctx.text ctx'.text i (clean raw) := by
    intro column length hle
    rw [byteLength_clean] at hle
    exact hspans column length hle
  cases hblank : allBlank (codePart raw) with
  | true =>
    obtain ⟨hcode, husage⟩ := isCode_of_allBlank types hblank
    rw [h] at hblank
    obtain ⟨hcode', husage'⟩ := isCode_of_allBlank types hblank
    refine ⟨rfl, hclean, by rw [hcode, hcode'], ?_, hspans'⟩
    rw [bne_iff_ne.mpr husage, bne_iff_ne.mpr husage']
  | false =>
    have hkind : ofLine types raw' = ofLine types raw := by
      rw [ofLine_eq_of_not_allBlank types hblank]
      rw [h] at hblank ⊢
      rw [ofLine_eq_of_not_allBlank types hblank]
    exact ⟨rfl, hclean, by rw [hkind], by rw [hkind], hspans'⟩

lemma SourceLine.forall₂_agrees (types : List Text) {raws raws' : List Text} {first : Nat}
    {ctx ctx' : Context} (h : raws.map codePart = raws'.map codePart)
    (hspans : ∀ i code, (raws.map codePart)[i]? = some code →
      SameSpans ctx.text ctx'.text (first + i) code) :
    List.Forall₂ (SourceLine.Agrees id ctx ctx')
      ((raws.zipIdx first).map fun (raw, i) => ⟨i, raw, clean raw, ofLine types raw⟩)
      ((raws'.zipIdx first).map fun (raw, i) => ⟨i, raw, clean raw, ofLine types raw⟩) := by
  induction raws generalizing raws' first with
  | nil =>
    obtain rfl : raws' = [] := by simpa using h.symm
    exact .nil
  | cons raw raws ih =>
    obtain ⟨raw', raws', rfl, hraw, hraws⟩ := map_eq_cons_iff.mp h.symm
    refine .cons (agrees_of_codePart hraw.symm (hspans 0 _ rfl)) (ih hraws.symm ?_)
    intro i code hcode
    rw [Nat.add_assoc, Nat.add_comm 1 i]
    exact hspans (i + 1) code hcode

lemma Context.agrees_of_sameCode (h : SameCode t t') (view : WorkspaceView) :
    (ofText t view).Agrees id (ofText t' view) := by
  have htable := SymbolTable.collect_eq_of_sameCode h
  have hlines : List.Forall₂ (SourceLine.Agrees id (ofText t view) (ofText t' view))
      (ofText t view).lines (ofText t' view).lines := by
    simp only [ofText, htable]
    refine SourceLine.forall₂_agrees _ h fun i code hcode => ?_
    rw [Nat.zero_add]
    exact h.sameSpans hcode
  refine ⟨.inl rfl, hlines, fun name => ?_, fun code => ?_, fun name type => ?_⟩
  · simp only [isKnown, ofText, htable, map_id]
  · simp only [declaredIn, ofText, htable, map_id, Capture.recased_id]
  · simp only [Finding.hasType, variableType?, ofText, htable, map_id]

/-! ## Edits that keep the code -/

/-- The lines are the same, or differ in what stands behind the semicolon of a comment. -/
inductive SameButComment : Text → Text → Prop
  | same {line : Text} (hline : NoBreak line) : SameButComment line line
  | comment {code comment comment' : Text} (hcode : codePart (code ++ [';']) = code)
      (hline : NoBreak (code ++ ';' :: comment)) (hline' : NoBreak (code ++ ';' :: comment')) :
      SameButComment (code ++ ';' :: comment) (code ++ ';' :: comment')

/-- The second document is the first with comments edited and with line feeds, pairs of carriage
return and line feed, and carriage returns alone exchanged for one another. -/
inductive Restyled : Text → Text → Prop
  | last {line line' : Text} (hline : SameButComment line line') : Restyled line line'
  | more {line line' brk brk' rest rest' : Text} (hline : SameButComment line line')
      (hbrk : IsBreak brk rest) (hbrk' : IsBreak brk' rest') (hrest : Restyled rest rest') :
      Restyled (line ++ (brk ++ rest)) (line' ++ (brk' ++ rest'))

namespace SameButComment

variable {line line' : Text} (h : SameButComment line line')
include h

lemma noBreak : NoBreak line ∧ NoBreak line' := by
  cases h with
  | same hline => exact ⟨hline, hline⟩
  | comment _ hline hline' => exact ⟨hline, hline'⟩

lemma codePart_eq : codePart line = codePart line' := by
  cases h with
  | same => rfl
  | comment hcode => rw [codePart_append_comment hcode, codePart_append_comment hcode]

end SameButComment

lemma Restyled.sameCode (h : Restyled t t') : SameCode t t' := by
  induction h with
  | last hline =>
    obtain ⟨hl, hl'⟩ := hline.noBreak
    rw [SameCode, lines_of_noBreak hl, lines_of_noBreak hl', map_singleton,
      map_singleton, hline.codePart_eq]
  | more hline hbrk hbrk' _ ih =>
    obtain ⟨hl, hl'⟩ := hline.noBreak
    rw [SameCode, lines_append_break hl hbrk, lines_append_break hl' hbrk', map_cons,
      map_cons, hline.codePart_eq, ih]

/-- **Comments and line ends never influence diagnostics.**  Documents with equally many lines and
the same code in each get the same diagnostics, in the same order, whatever the workspace, the
kind of file and the language of the messages, as long as the warnings about characters outside
ASCII are off.  Editing comments and exchanging line ends keeps the code. -/
theorem diagnose_eq_of_sameCode (t t' : Text) (isSystemFile : Bool) (view : WorkspaceView)
    (locale : Locale) :
    (SameCode t t' → diagnose t' isSystemFile view ⟨locale, false⟩ =
      diagnose t isSystemFile view ⟨locale, false⟩) ∧
    (Restyled t t' → diagnose t' isSystemFile view ⟨locale, false⟩ =
      diagnose t isSystemFile view ⟨locale, false⟩) := by
  have hsame : SameCode t t' → diagnose t' isSystemFile view ⟨locale, false⟩ =
      diagnose t isSystemFile view ⟨locale, false⟩ := by
    intro h
    have hchecks :=
      Finding.flatMap_codeChecks_eq (Context.agrees_of_sameCode h view) isSystemFile
    rw [Finding.recased_id, map_id] at hchecks
    rw [diagnose, diagnose, Finding.report_eq_flatMap, Finding.report_eq_flatMap]
    simp [Finding.checks, hchecks]
  exact ⟨hsame, fun h => hsame h.sameCode⟩

/-- A document with two findings, its comment and its line ends changed. -/
theorem diagnose_restyled_halt :
    let t := "a = 1 ; one\r\nHALT\r".toList
    let t' := "a = 1 ; another\nHALT\r\n".toList
    SameCode t t' ∧ Restyled t t' ∧ (diagnose t false {} ⟨.german, false⟩).length = 2 ∧
      diagnose t' false {} ⟨.german, false⟩ = diagnose t false {} ⟨.german, false⟩ := by
  intro t t'
  have hstyle : Restyled
      ("a = 1 ".toList ++ ';' :: " one".toList ++
        (['\r', '\n'] ++ ("HALT".toList ++ (['\r'] ++ []))))
      ("a = 1 ".toList ++ ';' :: " another".toList ++
        (['\n'] ++ ("HALT".toList ++ (['\r', '\n'] ++ [])))) :=
    .more (.comment (by decide) (by decide) (by decide)) (by decide) (by decide)
      (.more (.same (by decide)) (by decide) (by decide) (.last (.same (by decide))))
  have hcode : SameCode t t' := by decide
  exact ⟨hcode, hstyle, by decide +kernel,
    (diagnose_eq_of_sameCode t t' false {} .german).1 hcode⟩

end KrlWorkbench
