import KrlWorkbench.Proofs.Code.MaskedLists
import KrlWorkbench.Proofs.Finding.CheckCodes
import KrlWorkbench.Proofs.Symbol.SplitTypes

/-!
# Declared names are not reported as undeclared

A line that declares variables is looked at by two readers.  The checks blank out its strings and
know the types of the whole workspace.  The table of symbols, which says what is declared, is made
from the line as it is written and knows the types of its own document only.

Where the table reads the line (`ReadByTable`), every name that the checks take from it is declared,
and no use of the name is reported.  The two conditions cannot be dropped: a variable of a type that
only another file defines is declared for the checks and unknown to the table, and so is one whose
name stands behind a string.
-/

namespace KrlWorkbench

open List Code LineRule SymbolTable Text

variable {n text line : Text} {types : List Text} {view : WorkspaceView}

/-! ## Which check reports undeclared names -/

namespace Finding

/-- None of the findings is about an undeclared name. -/
def AllOther (fs : List Finding) : Prop :=
  ∀ f ∈ fs, ∀ n, f.cause ≠ .undefinedVariable n

variable {ctx : Context}

/-- What the search for undeclared names reports is an identifier that is not known. -/
lemma unknown_of_mem_undeclared {f : Finding} (hf : f ∈ undeclared ctx)
    (hn : f.cause = .undefinedVariable n) : ctx.isKnown n = false ∧ isIdentifier n = true := by
  obtain ⟨line, -, hf⟩ := mem_flatMap.mp hf
  rw [undeclaredIn] at hf
  split at hf
  case isTrue => simp at hf
  case isFalse =>
    obtain ⟨⟨previous, token⟩, hentry, hf⟩ := mem_filterMap.mp hf
    dsimp only at hf
    split_ifs at hf with hundeclared
    obtain rfl := Option.some.inj hf
    obtain rfl := Cause.undefinedVariable.inj hn
    have htoken : token ∈ Token.scan [] line.code := mem_of_mem_withPrevious hentry
    simp only [isUndeclared, Bool.and_eq_true, Bool.not_eq_true'] at hundeclared
    exact ⟨hundeclared.1.1.1.2, (Token.stop_eq_and_isIdentifier_of_mem_scan htoken).2⟩

/-- A report lists what the search for undeclared names finds, and then findings of other kinds. -/
lemma exists_report_eq_append (text : Text) (isSystemFile : Bool) (view : WorkspaceView)
    (options : Options) :
    ∃ others, AllOther others ∧ report text isSystemFile view options =
      (if isSystemFile then [] else undeclared (Context.ofText text view)) ++ others := by
  refine ⟨(checks text isSystemFile view options).tail.flatMap (·.2), fun f hf n hn => ?_, ?_⟩
  · obtain ⟨check, hcheck, hf⟩ := mem_flatMap.mp hf
    have hcode := code_mem_of_mem_checks (mem_of_mem_tail hcheck) hf
    have hcodes : ((checks text isSystemFile view options).tail.flatMap (·.1)) =
        FindingCode.all.tail := rfl
    have hmem : f.cause.code ∈ FindingCode.all.tail :=
      hcodes ▸ mem_flatMap.mpr ⟨check, hcheck, hcode⟩
    rw [hn, Cause.code] at hmem
    exact absurd hmem (by decide)
  · rw [report_eq_flatMap]
    rfl

lemma mem_undeclared_of_mem_report {isSystemFile : Bool} {options : Options} {f : Finding}
    (hf : f ∈ report text isSystemFile view options) (hn : f.cause = .undefinedVariable n) :
    f ∈ undeclared (Context.ofText text view) := by
  have hmem : f ∈ (if isSystemFile then [] else undeclared (Context.ofText text view)) :=
    mem_of_mem_report (i := 0) rfl hf (by rw [hn]; exact mem_cons_self)
  split at hmem
  · cases hmem
  · exact hmem

end Finding

/-! ## What the two readers take from a line -/

/-- The keys of the types that a document defines itself. -/
def ownTypes (text : Text) : List Text :=
  (collect text).types.map (·.key)

/-- The table of the document reads the line as a declaration: the line says `DECL`, or its type is
built in or defined in the document.  And no name that is written there holds a quote. -/
def ReadByTable (text line : Text) : Prop :=
  ∃ parts, TypedList.ofCode? (ownTypes text) (codePart line) = some parts ∧
    ∀ item ∈ ListItem.split parts.list, '"' ∉ item.name

lemma ownTypes_subset_types (text : Text) (view : WorkspaceView) :
    ownTypes text ⊆ (Context.ofText text view).types :=
  subset_append_right _ _

lemma ownTypes_subset_keysOf (text : Text) : ownTypes text ⊆ TypeDefinition.keysOf text.lines := by
  intro key hkey
  rw [TypeDefinition.keysOf_eq_map_key]
  exact WorkspaceView.mem_keys_collect.mp hkey

/-- A line declares variables only if it declares nothing else. -/
lemma LineKind.of_ofCode_eq_var {code : Text} (h : ofCode types code = .declaration .var) :
    functionHeader.find? code = none ∧ routineHeader.find? code = none ∧
      typeDefinition.find? code = none ∧ signal.find? code = none := by
  have hnone : ∀ rule : LineRule, ¬rule.holds code = true → rule.find? code = none := by
    intro rule hrule
    rwa [holds, Pattern.isIn, Option.not_isSome_iff_eq_none] at hrule
  rw [ofCode] at h
  split at h
  case isTrue => cases h
  case isFalse hheader =>
    rw [Bool.or_eq_true, not_or] at hheader
    split at h
    case isTrue => cases h
    case isFalse =>
      split at h
      case h_1 => split at h <;> cases h
      case h_2 htype =>
        split at h
        case isTrue => cases h
        case isFalse hsignal =>
          exact ⟨hnone _ hheader.2, hnone _ hheader.1, htype, hnone _ hsignal⟩

lemma LineKind.of_ofLine_eq_var (h : ofLine types line = .declaration .var) :
    allBlank (codePart line) = false ∧ ofCode types (codePart line) = .declaration .var := by
  unfold ofLine at h
  dsimp only at h
  split_ifs at h with _ _ hblank
  exact ⟨by simpa using hblank, h⟩

/-- A name that the checks take from a line the table reads stands in the list as it is written. -/
lemma exists_piece_of_mem_declaredIn (hline : line ∈ text.lines)
    (hsignal : signal.find? (codePart line) = none) {parts : TypedList}
    (hparts : TypedList.ofCode? (ownTypes text) (codePart line) = some parts)
    (hplain : ∀ item ∈ ListItem.split parts.list, '"' ∉ item.name) {name : Capture}
    (hname : name ∈ (Context.ofText text view).declaredIn (clean line)) :
    ∃ piece ∈ ListItem.pieces 0 false parts.list, name.text = itemName piece := by
  have hinLine := isInLine_of_noBreak (noBreak_of_mem_lines hline)
  have hpieces : ∀ piece ∈ ListItem.pieces 0 false parts.list, '"' ∉ itemName piece := by
    intro piece hpiece
    rw [← ListItem.map_text_split] at hpiece
    obtain ⟨item, hitem, rfl⟩ := mem_map.mp hpiece
    exact hplain item hitem
  have hparts' := TypedList.ofCode?_mono (ownTypes_subset_types text view) hparts
  obtain ⟨hsignal', hmasked⟩ := TypedList.ofCode?_mask hinLine hparts' hpieces hsignal
  rw [Context.declaredIn, clean, hsignal', hmasked] at hname
  obtain ⟨item, hitem, hname⟩ := mem_filterMap.mp hname
  split_ifs at hname
  obtain rfl := Option.some.inj hname
  have hpiece : item.text ∈ ListItem.pieces 0 false (mask parts.list) := by
    rw [← ListItem.map_text_split]
    exact mem_map_of_mem hitem
  rw [mask, ListItem.pieces_maskFrom, ListItem.maskPieces_false] at hpiece
  obtain ⟨piece, hpiece, htext⟩ := mem_map.mp hpiece
  refine ⟨piece, hpiece, ?_⟩
  show itemName item.text = itemName piece
  rw [← htext, ListItem.itemName_mask (hpieces piece hpiece)]

/-- A name in a list that the table reads is declared, if it can be a name at all. -/
lemma declares_of_piece (hline : line ∈ text.lines)
    (hkind : LineKind.ofLine types line = .declaration .var) {parts : TypedList}
    (hparts : TypedList.ofCode? (ownTypes text) (codePart line) = some parts) {piece : Text}
    (hpiece : piece ∈ ListItem.pieces 0 false parts.list)
    (hidentifier : isIdentifier (itemName piece) = true) : Declares text (itemName piece) := by
  obtain ⟨hblank, hkind⟩ := LineKind.of_ofLine_eq_var hkind
  obtain ⟨hfunction, hroutine, htype, hsignal⟩ := LineKind.of_ofCode_eq_var hkind
  obtain ⟨number, hnumber⟩ := mem_iff_getElem?.mp hline
  have hcode : (number, codePart line) ∈ codeLines text := by
    rw [codeLines, mem_filter]
    refine ⟨mem_map.mpr ⟨(line, number), ?_, rfl⟩, by simp [hblank]⟩
    exact mk_mem_zipIdx_iff_getElem?.mpr hnumber
  have hparts' := TypedList.ofCode?_mono (ownTypes_subset_keysOf text) hparts
  have hheader : Routine.ofHeader? text (codePart line) number = none := by
    rw [Routine.ofHeader?, hfunction, hroutine]
    rfl
  have hsymbols : Symbol.ofLine text (TypeDefinition.keysOf text.lines) number
      (codePart line) = Symbol.ofTypedList text number parts := by
    rw [Symbol.ofLine, hheader, htype, hsignal, hparts']
  have hname : itemName piece ∈ (Symbol.ofTypedList text number parts).map (·.name) := by
    rw [Symbol.map_name_ofTypedList, namesIn, mem_filter]
    exact ⟨mem_map_of_mem hpiece, hidentifier⟩
  obtain ⟨s, hs, hsname⟩ := mem_map.mp hname
  rw [← hsname]
  exact .symbol hcode (by rw [hsymbols]; exact hs)

lemma isKnown_of_declares (h : Declares text n) {n' : Text} (hsame : sameName n' n = true) :
    (Context.ofText text view).isKnown n' = true := by
  have hkey : upper n' ∈ (collect text).declaredKeys := by
    rw [mem_declaredKeys_iff]
    exact ⟨n, h, (beq_iff_eq.mp hsame).symm⟩
  have hmem : upper n' ∈ (Context.ofText text view).declared :=
    mem_append_left _ (mem_append_left _ hkey)
  rw [Context.isKnown, contains_iff_mem.mpr hmem, Bool.or_true]

/-- **Declared names are not reported.** If a line declares variables for the checks, and the table
of the document reads it too, then no use of a name that the checks take from that line is reported
as undeclared, anywhere in the document and in whatever case. -/
theorem declared_names_not_reported {text line : Text} {view : WorkspaceView}
    (hline : line ∈ text.lines)
    (hkind : LineKind.ofLine (Context.ofText text view).types line = .declaration .var)
    (hread : ReadByTable text line) :
    ∀ name ∈ (Context.ofText text view).declaredIn (Code.clean line),
      ∀ options, ∀ f ∈ Finding.report text false view options,
        ∀ n, f.cause = .undefinedVariable n → sameName n name.text = false := by
  intro name hname options f hf n hn
  obtain ⟨parts, hparts, hplain⟩ := hread
  obtain ⟨-, -, -, hsignal⟩ := LineKind.of_ofCode_eq_var (LineKind.of_ofLine_eq_var hkind).2
  obtain ⟨piece, hpiece, htext⟩ := exists_piece_of_mem_declaredIn hline hsignal hparts hplain hname
  rw [htext, ← Bool.not_eq_true]
  intro hsame
  obtain ⟨hunknown, hidentifier⟩ := Finding.unknown_of_mem_undeclared
    (Finding.mem_undeclared_of_mem_report hf hn) hn
  -- What is reported is an identifier, and so is what equals it up to case.
  rw [← isIdentifier_upper, beq_iff_eq.mp hsame, isIdentifier_upper] at hidentifier
  have hdeclared := declares_of_piece hline hkind hparts hpiece hidentifier
  rw [isKnown_of_declares hdeclared hsame] at hunknown
  simp at hunknown

/-- A document with a structure of its own and a variable of that type, whose initial value holds a
string with a comma in it.  The line declares two names, and neither is reported. -/
theorem declared_names_not_reported_string :
    let line : Text := "note home = \x7bt[] \"a, b\"\x7d, rest".toList
    let text : Text := "STRUC note INT n\n".toList ++ line ++ "\nREST = home".toList
    let ctx := Context.ofText text {}
    line ∈ text.lines ∧ LineKind.ofLine ctx.types line = .declaration .var ∧
      ReadByTable text line ∧
      (ctx.declaredIn (Code.clean line)).map (·.text) = ["home".toList, "rest".toList] ∧
      ∀ options, ∀ f ∈ Finding.report text false {} options, ∀ n,
        f.cause = .undefinedVariable n → sameName n "rest".toList = false := by
  intro line text ctx
  have hline : line ∈ text.lines := by decide +kernel
  have hkind : LineKind.ofLine ctx.types line = .declaration .var := by decide +kernel
  have hread : ReadByTable text line :=
    ⟨⟨false, false, "note".toList, line.drop 5, 5⟩, by decide +kernel, by decide +kernel⟩
  have hnames : (ctx.declaredIn (Code.clean line)).map (·.text) =
      ["home".toList, "rest".toList] := by decide +kernel
  obtain ⟨name, hname, hrest⟩ : ∃ name ∈ ctx.declaredIn (Code.clean line),
      name.text = "rest".toList := by
    rw [← mem_map, hnames]
    decide
  refine ⟨hline, hkind, hread, hnames, ?_⟩
  rw [← hrest]
  exact declared_names_not_reported hline hkind hread name hname

/-- The name that a finding reports as undeclared. -/
def Cause.undefinedName? : Cause → Option Text
  | .undefinedVariable n => some n
  | _ => none

lemma Finding.exists_of_undefinedName? {fs : List Finding}
    (h : n ∈ fs.filterMap (·.cause.undefinedName?)) : ∃ f ∈ fs, f.cause = .undefinedVariable n := by
  obtain ⟨f, hf, hn⟩ := mem_filterMap.mp h
  refine ⟨f, hf, ?_⟩
  unfold Cause.undefinedName? at hn
  split at hn
  · rename_i heq
    rw [heq, Option.some.inj hn]
  · cases hn

/-- Two lines that declare `foo` for the checks, and the use of `foo` behind them is reported: one
of a type that only another file defines, and one with a string in front of the name. -/
theorem undeclared_though_declared :
    let view := WorkspaceView.build [(⟨"file".toList, some .empty, "/ws/types.dat".toList, []⟩,
      SymbolTable.collect "DEFDAT types PUBLIC\nGLOBAL STRUC MYTYPE INT a, b\nENDDAT\n".toList)]
    ∀ line ∈ ["MYTYPE foo".toList, "INT \"\" foo".toList],
      let text : Text := line ++ "\nfoo = 1\n".toList
      let ctx := Context.ofText text view
      line ∈ text.lines ∧ LineKind.ofLine ctx.types line = .declaration .var ∧
        (ctx.declaredIn (Code.clean line)).map (·.text) = ["foo".toList] ∧
        ∀ options, ∃ f ∈ Finding.report text false view options,
          f.cause = .undefinedVariable "foo".toList := by
  intro view line hline text ctx
  have hall : line ∈ text.lines ∧ LineKind.ofLine ctx.types line = .declaration .var ∧
      (ctx.declaredIn (Code.clean line)).map (·.text) = ["foo".toList] ∧
      "foo".toList ∈ (Finding.undeclared ctx).filterMap (·.cause.undefinedName?) := by
    revert line
    decide +kernel
  obtain ⟨hmem, hkind, hnames, hreported⟩ := hall
  refine ⟨hmem, hkind, hnames, fun options => ?_⟩
  obtain ⟨f, hf, hn⟩ := Finding.exists_of_undefinedName? hreported
  refine ⟨f, ?_, hn⟩
  simp only [Finding.report, Finding.withoutRepeats_undeclared, Bool.false_eq_true, if_false,
    append_assoc]
  exact mem_append_left _ hf

end KrlWorkbench
