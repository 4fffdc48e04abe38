import KrlWorkbench.Proofs.Finding.CheckCodes

/-!
# Findings ignore case

The findings of a text in upper case are the findings of the text, in the same order and at the same
places, with the names in their messages in upper case: a document in upper case
(`Context.inUpper`) agrees with the document in all that the checks of the code read.  The check for
characters outside ASCII reads the whole line, and is followed by itself.

Two texts that differ in the case of letters only have the same upper case.  Hence
`analysis_ignores_case`: their diagnostics agree one by one in code, range, severity and tags, and
their declarations agree one by one in key, kind, scope, range and type up to case.
-/

namespace KrlWorkbench

open List Context LineRule SymbolTable Text

/-! ## Lookups -/

lemma Keyword.isKeyword_upper (word : Text) : isKeyword (upper word) = isKeyword word := by
  rw [isKeyword, upper_upper, isKeyword]

lemma LibraryFunction.find?_upper (name : Text) : find? (upper name) = find? name := by
  simp only [find?, sameName_upper_right]

lemma WorkspaceView.symbol?_upper (view : WorkspaceView) (name : Text) :
    view.symbol? (upper name) = view.symbol? name := by
  simp only [symbol?, sameName_upper_right]

lemma SymbolTable.symbol?_inUpper (table : SymbolTable) (name : Text) :
    table.inUpper.symbol? (upper name) = (table.symbol? name).map Symbol.inUpper := by
  rw [symbol?, symbol?, inUpper, find?_map]
  simp only [Function.comp_def, Symbol.inUpper, sameName_upper_left, sameName_upper_right]

lemma SymbolTable.declaredKeys_inUpper (table : SymbolTable) :
    table.inUpper.declaredKeys = table.declaredKeys := by
  simp only [declaredKeys, inUpper, map_map, Function.comp_def, Symbol.key_inUpper,
    Routine.key_inUpper, TypeDefinition.key_inUpper]

/-! ## Documents -/

/-- The same line, written in upper case. -/
def SourceLine.inUpper (line : SourceLine) : SourceLine :=
  { line with raw := upper line.raw, code := upper line.code }

namespace Context

/-- The same document, written in upper case. -/
def inUpper (ctx : Context) : Context :=
  { ctx with
    text := upper ctx.text
    lines := ctx.lines.map SourceLine.inUpper
    table := ctx.table.inUpper }

/-- A document in upper case is prepared as the document is, and then put in upper case. -/
lemma ofText_upper (text : Text) (view : WorkspaceView) :
    ofText (upper text) view = (ofText text view).inUpper := by
  have htypes : (collect text).inUpper.types.map (·.key) =
      (collect text).types.map (·.key) := by
    simp only [SymbolTable.inUpper, map_map, Function.comp_def, TypeDefinition.key_inUpper]
  simp only [ofText, inUpper, collect_upper, htypes, declaredKeys_inUpper,
    lines_upper, zipIdx_map, map_map, Function.comp_def, Prod.map, id,
    SourceLine.inUpper, Code.clean_upper, LineKind.ofLine_upper]

variable (ctx : Context)

lemma span_inUpper (line column length : Nat) :
    ctx.inUpper.span line column length = ctx.span line column length :=
  span_upper ctx.text line column length

lemma isKnown_inUpper (name : Text) : ctx.inUpper.isKnown (upper name) = ctx.isKnown name := by
  rw [isKnown, isKnown, Keyword.isKeyword_upper, BuiltinType.isBuiltinType_upper,
    LibraryFunction.find?_upper, upper_upper]
  rfl

lemma isPlainName_upper (name : Text) : isPlainName (upper name) = isPlainName name := by
  rw [isPlainName, isPlainName, isEmpty_upper, all_upper isNameChar_upperChar]

lemma declaredIn_inUpper (code : Text) :
    ctx.inUpper.declaredIn (upper code) = (ctx.declaredIn code).map Capture.inUpper := by
  have htypes : ctx.inUpper.types = ctx.types := rfl
  rw [declaredIn, declaredIn, find?_upper, htypes, TypedList.ofCode?_upper]
  cases signal.find? code with
  | some found =>
    simp only [Option.map_some, Match.group?_inUpper]
    cases found.group? 2 <;> rfl
  | none =>
    cases TypedList.ofCode? ctx.types code with
    | none => rfl
    | some parts =>
      simp only [Option.map_none, Option.map_some, TypedList.inUpper, ListItem.split_upper,
        filterMap_map, map_filterMap]
      refine filterMap_congr fun item _ => ?_
      simp only [Function.comp_apply, ListItem.name_inUpper, ListItem.nameOffset_inUpper,
        isPlainName_upper]
      split <;> rfl

lemma hasType_inUpper (name : Text) (type : String) :
    Finding.hasType ctx.inUpper (upper name) type = Finding.hasType ctx name type := by
  have hview : ctx.inUpper.view = ctx.view := rfl
  have htable : ctx.inUpper.table = ctx.table.inUpper := rfl
  rw [Finding.hasType, Finding.hasType, variableType?, variableType?, hview, htable,
    symbol?_inUpper, WorkspaceView.symbol?_upper]
  cases ctx.table.symbol? name with
  | none => rfl
  | some s =>
    rw [Option.map_some, Option.bind_some, Option.bind_some, Symbol.inUpper]
    cases s.typeName with
    | none => rfl
    | some found => exact sameName_upper_left found type.toList

lemma agrees_inUpper : ctx.Agrees upperChar ctx.inUpper where
  recasing := .inr rfl
  lines := by
    rw [inUpper, forall₂_map_right_iff]
    refine forall₂_same.mpr fun line _ => ⟨rfl, rfl, rfl, rfl, fun column length _ => ?_⟩
    exact span_upper ctx.text line.number column length
  isKnown := ctx.isKnown_inUpper
  declaredIn := ctx.declaredIn_inUpper
  hasType := ctx.hasType_inUpper

end Context

/-! ## The report -/

namespace Finding

lemma nonAsciiRuns_upper (run : Text) (offset : Nat) (raw : Text) :
    nonAsciiRuns (upper run) offset (upper raw) =
      (nonAsciiRuns run offset raw).map Capture.inUpper := by
  induction raw generalizing run offset with
  | nil =>
    rw [upper_nil, nonAsciiRuns, nonAsciiRuns, isEmpty_upper, byteLength_upper, ← upper_reverse]
    split <;> rfl
  | cons c rest ih =>
    have hnil := ih [] (offset + c.utf8Size)
    rw [upper_nil] at hnil
    rw [upper_cons, nonAsciiRuns, nonAsciiRuns, isAscii_upperChar, utf8Size_upperChar,
      isEmpty_upper, byteLength_upper, ← upper_reverse, ← upper_cons, ih, hnil]
    split
    · rfl
    · split <;> rfl

lemma nonAscii_inUpper (ctx : Context) :
    nonAscii ctx.inUpper = (nonAscii ctx).map (recased upperChar) := by
  have hlines : ctx.inUpper.lines = ctx.lines.map SourceLine.inUpper := rfl
  rw [nonAscii, nonAscii, hlines, flatMap_map, map_flatMap]
  refine flatMap_congr fun line _ => ?_
  have hruns : nonAsciiRuns [] 0 line.inUpper.raw =
      (nonAsciiRuns [] 0 line.raw).map Capture.inUpper := nonAsciiRuns_upper [] 0 line.raw
  rw [hruns, map_map, map_map]
  refine map_congr_left fun run _ => ?_
  simp only [Function.comp_apply, Capture.inUpper, span_inUpper, byteLength_upper]
  rfl

/-- The findings of a text in upper case are its findings in upper case. -/
lemma report_upper (text : Text) (isSystemFile : Bool) (view : WorkspaceView) (options : Options) :
    report (upper text) isSystemFile view options =
      (report text isSystemFile view options).map (recased upperChar) := by
  rw [report_eq_flatMap, report_eq_flatMap, checks, checks, ofText_upper, flatMap_append,
    flatMap_append, flatMap_codeChecks_eq (agrees_inUpper _), map_append]
  simp [nonAscii_inUpper, apply_ite (List.map (recased upperChar))]

end Finding

/-! ## Texts that differ in case -/

/-- Diagnostics of the same kind at the same place. -/
structure Diagnostic.Agrees (d d' : Diagnostic) : Prop where
  code : d'.code = d.code
  range : d'.range = d.range
  severity : d'.severity = d.severity
  tags : d'.tags = d.tags

/-- Symbols of the same kind, scope and place, with names and types that are equal up to case. -/
structure Symbol.Agrees (s s' : Symbol) : Prop where
  key : s'.key = s.key
  kind : s'.kind = s.kind
  isGlobal : s'.isGlobal = s.isGlobal
  range : s'.range = s.range
  typeName : s'.typeName.map upper = s.typeName.map upper

lemma Symbol.agrees_of_inUpper_eq {s s' : Symbol} (h : s.inUpper = s'.inUpper) : s.Agrees s' where
  key := by rw [← s'.key_inUpper, ← h, s.key_inUpper]
  kind := (congrArg Symbol.kind h).symm
  isGlobal := (congrArg Symbol.isGlobal h).symm
  range := (congrArg Symbol.range h).symm
  typeName := (congrArg Symbol.typeName h).symm

lemma Diagnostic.agrees_of_inUpper_eq (locale : Locale) {f f' : Finding}
    (h : f.recased upperChar = f'.recased upperChar) :
    (ofFinding locale f).Agrees (ofFinding locale f') := by
  have hsame : ∀ {α : Type} (part : Diagnostic → α),
      (∀ g, part (ofFinding locale (g.recased upperChar)) = part (ofFinding locale g)) →
        part (ofFinding locale f') = part (ofFinding locale f) := by
    intro α part hpart
    rw [← hpart, ← h, hpart]
  -- The texts that a cause quotes have no part in this.
  refine ⟨hsame code ?_, hsame range ?_, hsame severity ?_, hsame tags ?_⟩
  all_goals
    rintro ⟨range, cause⟩
    cases cause <;> rfl

lemma forall₂_of_map_eq {α β : Type} {f : α → β} {R : α → α → Prop}
    (hR : ∀ a b, f a = f b → R a b) {l l' : List α} (h : l.map f = l'.map f) :
    List.Forall₂ R l l' := by
  rw [← forall₂_eq_eq_eq, forall₂_map_left_iff, forall₂_map_right_iff] at h
  exact h.imp hR

/-- **The analysis ignores case.**  Two texts that are equal up to the case of ASCII letters get,
whatever the kind of file, the workspace and the options, equally many diagnostics, which agree one
by one in code, range, severity and tags; and they declare equally many symbols and routines, which
agree one by one in key, kind, scope, range and, up to case, in type. -/
theorem analysis_ignores_case {t t' : Text} (h : upper t = upper t') :
    (∀ (isSystemFile : Bool) (view : WorkspaceView) (options : Finding.Options),
      List.Forall₂ Diagnostic.Agrees (diagnose t isSystemFile view options)
        (diagnose t' isSystemFile view options)) ∧
    List.Forall₂ Symbol.Agrees (SymbolTable.collect t).symbols
      (SymbolTable.collect t').symbols ∧
    List.Forall₂ (fun r r' => r.symbol.Agrees r'.symbol) (SymbolTable.collect t).routines
      (SymbolTable.collect t').routines := by
  have htable : (SymbolTable.collect t).inUpper = (SymbolTable.collect t').inUpper := by
    rw [← SymbolTable.collect_upper, h, SymbolTable.collect_upper]
  refine ⟨fun isSystemFile view options => ?_, ?_, ?_⟩
  · have hreport : (Finding.report t isSystemFile view options).map (Finding.recased upperChar) =
        (Finding.report t' isSystemFile view options).map (Finding.recased upperChar) := by
      rw [← Finding.report_upper, h, Finding.report_upper]
    rw [diagnose, diagnose, forall₂_map_left_iff, forall₂_map_right_iff]
    exact forall₂_of_map_eq (fun _ _ => Diagnostic.agrees_of_inUpper_eq options.locale) hreport
  · exact forall₂_of_map_eq (fun _ _ => Symbol.agrees_of_inUpper_eq)
      (congrArg SymbolTable.symbols htable)
  · refine forall₂_of_map_eq (fun r r' hr => ?_) (congrArg SymbolTable.routines htable)
    exact Symbol.agrees_of_inUpper_eq (congrArg Routine.symbol hr)

/-- A routine in two spellings, with a parameter that its body declares and a name that nobody
declares. -/
theorem analysis_ignores_case_routine :
    let t : Text := "DEF run(N:IN)\nDECL Int n\nptp Home".toList
    let t' : Text := "def RUN(n:in)\ndecl INT N\nPTP home".toList
    upper t = upper t' ∧ (diagnose t false {} {}).length = 4 ∧
      (SymbolTable.collect t).symbols.length = 1 ∧ (SymbolTable.collect t).routines.length = 1 ∧
      List.Forall₂ Diagnostic.Agrees (diagnose t false {} {}) (diagnose t' false {} {}) ∧
      List.Forall₂ Symbol.Agrees (SymbolTable.collect t).symbols
        (SymbolTable.collect t').symbols ∧
      List.Forall₂ (fun r r' => r.symbol.Agrees r'.symbol) (SymbolTable.collect t).routines
        (SymbolTable.collect t').routines := by
  intro t t'
  have hupper : upper t = upper t' := by decide
  obtain ⟨hdiagnose, hsymbols, hroutines⟩ := analysis_ignores_case hupper
  exact ⟨hupper, by decide +kernel, by decide +kernel, by decide +kernel, hdiagnose false {} {},
    hsymbols, hroutines⟩

end KrlWorkbench
