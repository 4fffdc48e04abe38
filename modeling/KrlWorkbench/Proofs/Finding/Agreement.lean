import KrlWorkbench.Proofs.CaseIndependence.Declarations
import KrlWorkbench.Proofs.Finding.DistinctPlaces
import KrlWorkbench.Proofs.Symbol.NameRanges
import Mathlib.Data.List.Forall2

/-!
# Documents that agree in their code

A check looks at the code of each line, at ranges inside that code, and at what is declared.  Two
documents may agree in all of this although their texts differ: in comments and line ends, or in the
case of letters (`Context.Agrees`).  Each check has one lemma, which is about two documents that
agree (`Finding.Reports`).  It says that the check reports the same on both, up to the case of the
texts that it quotes, and that everything it reports has one of its codes and points at a piece of
the code of a line.  A check that walks over the lines is handled by what it does to one line.
-/

namespace KrlWorkbench

open List LineRule Text

variable {g : Char → Char}

/-! ## Texts that may be put in upper case -/

/-- The letters stay as they are, or are put in upper case. -/
def IsRecasing (g : Char → Char) : Prop :=
  g = id ∨ g = upperChar

/-- The same piece in other letters. -/
def Capture.recased (g : Char → Char) (c : Capture) : Capture :=
  ⟨c.start, c.text.map g⟩

/-- The same match in other letters. -/
def Match.recased (g : Char → Char) (m : Match) : Match :=
  ⟨m.whole.recased g, m.groups.map fun entry => (entry.1, entry.2.recased g)⟩

/-- The same identifier in other letters. -/
def Token.recased (g : Char → Char) (t : Token) : Token :=
  { t with text := t.text.map g, lead := t.lead.map g }

/-- The same cause, with the texts it quotes in other letters. -/
def Cause.recased (g : Char → Char) : Cause → Cause
  | .undefinedVariable name => .undefinedVariable (name.map g)
  | .missingGlobal name => .missingGlobal (name.map g)
  | .globalNotPublic name => .globalNotPublic (name.map g)
  | .nameTooLong name limit => .nameTooLong (name.map g) limit
  | .nameStartsWithDigit name => .nameStartsWithDigit (name.map g)
  | .duplicateRoutine name firstLine => .duplicateRoutine (name.map g) firstLine
  | .duplicateVariable name firstLine => .duplicateVariable (name.map g) firstLine
  | .realInSwitch name => .realInSwitch (name.map g)
  | .shouldBeReal name value => .shouldBeReal (name.map g) (value.map g)
  | .unsafePathSpeed written value limit => .unsafePathSpeed (written.map g) value limit
  | .unsafeAxisSpeed written value limit => .unsafeAxisSpeed (written.map g) value limit
  | .nonAscii text => .nonAscii (text.map g)
  | cause => cause

/-- The same finding, with the texts it quotes in other letters. -/
def Finding.recased (g : Char → Char) (f : Finding) : Finding :=
  ⟨f.range, f.cause.recased g⟩

@[simp] lemma Capture.recased_id : recased id = id := by
  funext c
  simp [recased]

@[simp] lemma Match.recased_id : recased id = id := by
  funext m
  simp [recased]

@[simp] lemma Token.recased_id : recased id = id := by
  funext t
  simp [recased]

@[simp] lemma Finding.recased_id : recased id = id := by
  funext f
  obtain ⟨range, cause⟩ := f
  cases cause <;> simp [recased, Cause.recased]

namespace IsRecasing

variable (hg : IsRecasing g)
include hg

/-- What changes with the letters in upper case changes with them here. -/
lemma apply {α : Type} {F : Text → α} {M : (Char → Char) → α → α} (hid : ∀ x, M id x = x)
    (hF : ∀ a, F (upper a) = M upperChar (F a)) (a : Text) : F (a.map g) = M g (F a) := by
  rcases hg with rfl | rfl
  · rw [map_id, hid]
  · exact hF a

/-- What does not depend on the case of letters is the same. -/
lemma same {α : Type} {F : Text → α} (hF : ∀ a, F (upper a) = F a) (a : Text) :
    F (a.map g) = F a :=
  hg.apply (M := fun _ x => x) (fun _ => rfl) hF a

lemma byteLength_map (a : Text) : byteLength (a.map g) = byteLength a :=
  hg.same byteLength_upper a

lemma upper_map (a : Text) : upper (a.map g) = upper a :=
  hg.same upper_upper a

lemma sameName_map (a b : Text) : sameName (a.map g) b = sameName a b :=
  hg.same (F := (sameName · b)) (sameName_upper_left · b) a

lemma holds_map (rule : LineRule) (code : Text) : rule.holds (code.map g) = rule.holds code :=
  hg.same (holds_upper rule) code

lemma find?_map (rule : LineRule) (code : Text) :
    rule.find? (code.map g) = (rule.find? code).map (Match.recased g) :=
  hg.apply (M := fun g => Option.map (Match.recased g)) (by simp) (find?_upper rule) code

lemma group?_recased (m : Match) (i : Nat) :
    (m.recased g).group? i = (m.group? i).map (Capture.recased g) := by
  rcases hg with rfl | rfl
  · simp
  · exact m.group?_inUpper i

lemma stop_recased (m : Match) : (m.recased g).whole.stop = m.whole.stop :=
  congrArg (m.whole.start + ·) (hg.byteLength_map m.whole.text)

lemma text_recased (m : Match) (i : Nat) : (m.recased g).text i = (m.text i).map g := by
  rw [Match.text, Match.text, hg.group?_recased]
  cases m.group? i <;> rfl

lemma group?_find?_map (rule : LineRule) (i : Nat) (code : Text) :
    (rule.find? (code.map g)).bind (·.group? i) =
      ((rule.find? code).bind (·.group? i)).map (Capture.recased g) := by
  rw [hg.find?_map]
  cases rule.find? code with
  | none => rfl
  | some found => exact hg.group?_recased found i

lemma closesDataList_map (code : Text) :
    Finding.closesDataList (code.map g) = Finding.closesDataList code :=
  hg.same (Pattern.isIn_upper (BlockKind.ignoresCase_closerPattern .dataList)) code

end IsRecasing

/-! ## Documents that agree -/

/-- What the checks read of two lines agrees: their code and the ranges in it. -/
structure SourceLine.Agrees (g : Char → Char) (ctx ctx' : Context) (line line' : SourceLine) :
    Prop where
  number : line'.number = line.number
  code : line'.code = line.code.map g
  isCode : line'.kind.isCode = line.kind.isCode
  usage : (line'.kind != .usage) = (line.kind != .usage)
  spans : SameSpans ctx.text ctx'.text line.number line.code

/-- What the checks read of two documents agrees. -/
structure Context.Agrees (g : Char → Char) (ctx ctx' : Context) : Prop where
  recasing : IsRecasing g
  lines : List.Forall₂ (SourceLine.Agrees g ctx ctx') ctx.lines ctx'.lines
  isKnown (name : Text) : ctx'.isKnown (name.map g) = ctx.isKnown name
  declaredIn (code : Text) :
    ctx'.declaredIn (code.map g) = (ctx.declaredIn code).map (Capture.recased g)
  hasType (name : Text) (type : String) :
    Finding.hasType ctx' (name.map g) type = Finding.hasType ctx name type

variable {f : Finding} {ctx ctx' : Context} {line line' : SourceLine}
  {check : List FindingCode × List Finding}

lemma SourceLine.agrees_refl (ctx : Context) (line : SourceLine) : line.Agrees id ctx ctx line :=
  ⟨rfl, line.code.map_id.symm, rfl, rfl, fun _ _ _ => rfl⟩

lemma Context.agrees_refl (ctx : Context) : ctx.Agrees id ctx where
  recasing := .inl rfl
  lines := forall₂_same.mpr fun line _ => line.agrees_refl ctx
  isKnown name := by rw [map_id]
  declaredIn code := by simp
  hasType name type := by rw [map_id]

/-- What the search for duplicates reads of two routines agrees. -/
structure Routine.Agrees (g : Char → Char) (r r' : Routine) : Prop where
  key : r'.key = r.key
  name : r'.name = r.name.map g
  range : r'.symbol.range = r.symbol.range
  params : (r'.params.map fun p => upper p.name) = r.params.map fun p => upper p.name

/-- Lines that agree are headers of routines that agree, or of none. -/
lemma SourceLine.Agrees.header (hg : IsRecasing g) (hl : line.Agrees g ctx ctx' line') :
    Option.Rel (Routine.Agrees g) (Routine.ofHeader? ctx.text line.code line.number)
      (Routine.ofHeader? ctx'.text line'.code line'.number) := by
  rw [hl.code, hl.number]
  rcases hg with rfl | rfl
  · rw [map_id, Routine.ofHeader?_eq hl.spans]
    cases Routine.ofHeader? ctx.text line.code line.number with
    | none => exact .none
    | some r => exact .some ⟨rfl, r.name.map_id.symm, rfl, rfl⟩
  · have hspans : SameSpans (upper ctx.text) ctx'.text line.number (upper line.code) := by
      intro column length hle
      rw [byteLength_upper] at hle
      rw [span_upper, hl.spans column length hle]
    change Option.Rel _ _ (Routine.ofHeader? ctx'.text (upper line.code) line.number)
    rw [Routine.ofHeader?_eq hspans, Routine.ofHeader?_upper]
    cases Routine.ofHeader? ctx.text line.code line.number with
    | none => exact .none
    | some r =>
      exact .some ⟨r.key_inUpper, rfl, rfl, by simp [Routine.inUpper, Param.inUpper, upper_upper]⟩

/-- The finding points at a piece of the line's code. -/
def SourceLine.Marks (ctx : Context) (line : SourceLine) (f : Finding) : Prop :=
  ∃ column length, column + length ≤ byteLength line.code ∧
    f.range = ctx.span line.number column length

namespace Finding

variable {codes : List FindingCode} {lines : List SourceLine} {fs fs' gs gs' : List Finding}
  {cause : Cause} {d : Declared}

/-- The finding points at a piece of the code of one of the lines. -/
def MarksOneOf (ctx : Context) (lines : List SourceLine) (f : Finding) : Prop :=
  ∃ line ∈ lines, line.Marks ctx f

/-- The same is found in both documents, with one of the codes each and in one of the lines. -/
structure Reports (g : Char → Char) (ctx : Context) (codes : List FindingCode)
    (lines : List SourceLine) (fs fs' : List Finding) : Prop where
  same : fs' = fs.map (recased g)
  code_mem : ∀ f ∈ fs, f.cause.code ∈ codes
  marks : ∀ f ∈ fs, MarksOneOf ctx lines f

lemma reports_nil : Reports g ctx codes lines [] [] :=
  ⟨rfl, by simp, by simp⟩

lemma Reports.append (hfs : Reports g ctx codes lines fs fs')
    (hgs : Reports g ctx codes lines gs gs') :
    Reports g ctx codes lines (fs ++ gs) (fs' ++ gs') :=
  ⟨by rw [hfs.same, hgs.same, map_append], forall_mem_append.mpr ⟨hfs.code_mem, hgs.code_mem⟩,
    forall_mem_append.mpr ⟨hfs.marks, hgs.marks⟩⟩

lemma reports_ite {p : Prop} [Decidable p] (hfs : Reports g ctx codes lines fs fs')
    (hgs : Reports g ctx codes lines gs gs') :
    Reports g ctx codes lines (if p then fs else gs) (if p then fs' else gs') := by
  split
  · exact hfs
  · exact hgs

lemma reports_flatMap {α β : Type} {R : α → β → Prop} {l : List α} {l' : List β}
    {k : α → List Finding} {k' : β → List Finding} (hl : List.Forall₂ R l l')
    (hk : ∀ a b, R a b → Reports g ctx codes lines (k a) (k' b)) :
    Reports g ctx codes lines (l.flatMap k) (l'.flatMap k') := by
  induction hl with
  | nil => exact reports_nil
  | cons hab _ ih => exact (hk _ _ hab).append ih

lemma reports_filterMap {α : Type} {l : List α} {k k' : α → Option Finding}
    (hk : ∀ a ∈ l, Reports g ctx codes lines (k a).toList (k' a).toList) :
    Reports g ctx codes lines (l.filterMap k) (l.filterMap k') := by
  rw [filterMap_eq_flatMap_toList, filterMap_eq_flatMap_toList]
  refine reports_flatMap (R := fun a b => a ∈ l ∧ a = b)
    (forall₂_same.mpr fun a ha => ⟨ha, rfl⟩) ?_
  rintro a _ ⟨ha, rfl⟩
  exact hk a ha

/-! ## What a check reports about a line -/

lemma isAggregateField_upper (code : Text) (token : Token) :
    isAggregateField (upper code) token.inUpper = isAggregateField code token := by
  have hsign : ∀ c, (upperChar c == '\x7b' || upperChar c == ',' || upperChar c == ':') =
      (c == '\x7b' || c == ',' || c == ':') :=
    apply_upperChar (fun c => c == '\x7b' || c == ',' || c == ':') (by decide)
  simp only [isAggregateField, braceDepth, Token.inUpper, takeBytes_upper,
    count_upper (d := '\x7b') (by decide), count_upper (d := '\x7d') (by decide), Option.any_map,
    hsign]
  rfl

lemma isCalled_upper (code : Text) (token : Token) :
    isCalled (upper code) token.inUpper = isCalled code token := by
  rw [isCalled, isCalled, Token.inUpper, dropBytes_upper, trimStart_upper,
    head?_upper_beq (by decide)]

lemma isUndeclared_recased (h : ctx.Agrees g ctx') (labels : List Text) (code : Text)
    (previous : Option Token) (token : Token) :
    isUndeclared ctx' labels (code.map g) (previous.map (Token.recased g)) (token.recased g) =
      isUndeclared ctx labels code previous token := by
  have hsigns : (token.recased g).isQualified = token.isQualified ∧
      isCalled (code.map g) (token.recased g) = isCalled code token ∧
      isAggregateField (code.map g) (token.recased g) = isAggregateField code token := by
    rcases h.recasing with rfl | rfl
    · simp
    · exact ⟨token.isQualified_inUpper, isCalled_upper code token,
        isAggregateField_upper code token⟩
  rw [isUndeclared, isUndeclared, hsigns.1, hsigns.2.1, hsigns.2.2, Option.any_map]
  simp only [Token.recased, h.isKnown, h.recasing.upper_map, h.recasing.sameName_map]

lemma withPrevious_map (previous : Option Token) (r : Token → Token) (tokens : List Token) :
    withPrevious (previous.map r) (tokens.map r) =
      (withPrevious previous tokens).map fun entry => (entry.1.map r, r entry.2) := by
  induction tokens generalizing previous with
  | nil => rfl
  | cons token rest ih =>
    rw [map_cons, withPrevious, withPrevious, map_cons, ← ih]
    rfl

lemma closeIn_inUpper (depth : Nat) (found : List Match) :
    closeIn depth (found.map Match.inUpper) = closeIn depth found := by
  induction found generalizing depth with
  | nil => rfl
  | cons first rest ih =>
    rw [map_cons, closeIn, closeIn, ih]
    rfl

/-- The names that a line declares stand in its code. -/
lemma stop_le_of_mem_declaredIn {code : Text} {name : Capture} (h : name ∈ ctx.declaredIn code) :
    name.start + byteLength name.text ≤ byteLength code := by
  rw [Context.declaredIn] at h
  split at h
  case h_1 found hfound =>
    have hgroup : found.group? 2 = some name := by simpa using h
    exact ((Pattern.matches_of_find? hfound).inside.group? hgroup).stop_le
  case h_2 =>
    split at h
    case h_1 => simp at h
    case h_2 parts hparts =>
      obtain ⟨item, hitem, hname⟩ := mem_filterMap.mp h
      split_ifs at hname
      obtain rfl := Option.some.inj hname
      exact TypedList.name_stop_le hparts hitem

section Line

variable (h : ctx.Agrees g ctx') (hmem : line ∈ lines) (hl : line.Agrees g ctx ctx' line')
include hmem hl

omit hl in
lemma reports_marked (hcode : f.cause.code ∈ codes) (hmarks : line.Marks ctx f) :
    Reports g ctx codes lines [f] [f.recased g] :=
  ⟨rfl, forall_mem_singleton.mpr hcode, forall_mem_singleton.mpr ⟨line, hmem, hmarks⟩⟩

lemma reports_span (hcode : cause.code ∈ codes) {column length : Nat}
    (hle : column + length ≤ byteLength line.code) :
    Reports g ctx codes lines [⟨ctx.span line.number column length, cause⟩]
      [⟨ctx'.span line.number column length, cause.recased g⟩] := by
  have hspan : ctx'.span line.number column length = ctx.span line.number column length :=
    hl.spans column length hle
  rw [hspan]
  exact reports_marked hmem hcode ⟨column, length, hle, rfl⟩

include h

lemma reports_codeRange (hcode : cause.code ∈ codes) :
    Reports g ctx codes lines [⟨ctx.codeRange line, cause⟩]
      [⟨ctx'.codeRange line', cause.recased g⟩] := by
  have hindent := h.recasing.same indentBytes_upper line.code
  have htrim := h.recasing.same (F := fun a => byteLength (trim a))
    (fun a => by rw [trim_upper, byteLength_upper]) line.code
  rw [Context.codeRange, Context.codeRange, hl.code, hl.number, hindent, htrim]
  exact reports_span hmem hl hcode (indentBytes_add_byteLength_trim_le prefix_rfl)

lemma reports_undeclaredIn (labels : List Text) :
    Reports g ctx [.undefinedVariable] lines (undeclaredIn ctx labels line)
      (undeclaredIn ctx' labels line') := by
  have htokens := h.recasing.apply (M := fun g => List.map (Token.recased g)) (by simp)
    Token.tokens_upper line.code
  have hentries : withPrevious none ((Token.tokens line.code).map (Token.recased g)) = _ :=
    withPrevious_map none _ _
  rw [undeclaredIn, undeclaredIn, hl.code, hl.number, hl.usage, h.recasing.holds_map, htokens,
    hentries]
  refine reports_ite reports_nil ?_
  rw [filterMap_map]
  refine reports_filterMap fun entry hentry => ?_
  simp only [Function.comp_apply, isUndeclared_recased h, apply_ite Option.toList,
    Option.toList_some, Option.toList_none]
  have hle := Token.start_add_le_of_mem_tokens (mem_of_mem_withPrevious hentry)
  exact reports_ite (reports_span hmem hl (by simp [Cause.code]) hle) reports_nil

lemma reports_visibilityOf (isPublic : Bool) :
    Reports g ctx [.missingGlobal, .globalNotPublic] lines (visibilityOf ctx isPublic line)
      (visibilityOf ctx' isPublic line') := by
  have hname : declaredName ctx' (line.code.map g) = (declaredName ctx line.code).map g := by
    rw [declaredName, declaredName, h.declaredIn, h.recasing.find?_map]
    cases ctx.declaredIn line.code with
    | cons first rest => rfl
    | nil =>
      cases typeDefinition.find? line.code with
      | some found => exact h.recasing.text_recased found 4
      | none => rcases h.recasing with rfl | rfl <;> decide
  rw [visibilityOf, visibilityOf, hl.code, hl.number, hname, h.recasing.holds_map,
    h.recasing.find?_map]
  refine reports_ite reports_nil ?_
  cases isPublic with
  | true =>
    cases globalKeyword.find? line.code with
    | none => exact reports_codeRange h hmem hl (by simp [Cause.code])
    | some found => exact reports_nil
  | false =>
    cases hfound : globalKeyword.find? line.code with
    | none => exact reports_nil
    | some found =>
      exact reports_span hmem hl (by simp [Cause.code]) (globalKeyword_stop_le hfound)

lemma reports_nameOf : Reports g ctx [.nameTooLong, .nameStartsWithDigit] lines
    ((ctx.declaredIn line.code).filterMap (nameOf ctx line.number))
    ((ctx'.declaredIn line'.code).filterMap (nameOf ctx' line'.number)) := by
  rw [hl.code, hl.number, h.declaredIn, filterMap_map]
  refine reports_filterMap fun name hname => ?_
  have hdigit := h.recasing.same (F := fun a => a.head?.any isDigit)
    (fun a => by rw [head?_upper, Option.any_map]; simp only [isDigit_upperChar]) name.text
  simp only [Function.comp_apply, nameOf, Capture.recased, hdigit, h.recasing.byteLength_map,
    apply_ite Option.toList, Option.toList_some, Option.toList_none]
  have hle := stop_le_of_mem_declaredIn hname
  exact reports_ite (reports_span hmem hl (by simp [Cause.code]) hle)
    (reports_ite (reports_span hmem hl (by simp [Cause.code]) hle) reports_nil)

/-- The names of a line are added alike, and those that are taken are reported. -/
lemma reports_duplicatesIn (d : Declared) {names : List Capture}
    (hnames : names ⊆ ctx.declaredIn line.code) :
    Reports g ctx [.duplicateName] lines (duplicatesIn ctx line.number d names).1
        (duplicatesIn ctx' line.number d (names.map (Capture.recased g))).1 ∧
      (duplicatesIn ctx' line.number d (names.map (Capture.recased g))).2 =
        (duplicatesIn ctx line.number d names).2 := by
  induction names generalizing d with
  | nil => exact ⟨reports_nil, rfl⟩
  | cons name rest ih =>
    obtain ⟨hname, hrest⟩ := cons_subset.mp hnames
    simp only [map_cons, duplicatesIn, Capture.recased, h.recasing.upper_map,
      h.recasing.byteLength_map]
    split
    case isTrue => exact ih _ hrest
    case isFalse =>
      cases d.scope.lookup (upper name.text) with
      | none => exact ih _ hrest
      | some first =>
        obtain ⟨hreports, hstate⟩ := ih d hrest
        exact ⟨(reports_span hmem hl (by simp [Cause.code])
          (stop_le_of_mem_declaredIn hname)).append hreports, hstate⟩

lemma reports_stopsIn : Reports g ctx [.waitWithoutTimeout, .haltStatement] lines
    (stopsIn ctx line) (stopsIn ctx' line') := by
  have hindent := h.recasing.same indentBytes_upper line.code
  simp only [stopsIn, hl.code, hl.number, hindent, h.recasing.holds_map, h.recasing.find?_map]
  refine Reports.append ?_ ?_
  · cases hfound : waitFor.find? line.code with
    | none => exact reports_nil
    | some found =>
      simp only [Option.map_some, h.recasing.stop_recased]
      exact reports_ite reports_nil
        (reports_span hmem hl (by simp [Cause.code]) (indentBytes_add_sub_le hfound))
  · split
    case isTrue hhalt =>
      exact reports_span hmem hl (by simp [Cause.code]) (indentBytes_add_halt_le hhalt)
    case isFalse => exact reports_nil

lemma reports_typeIn : Reports g ctx [.realInSwitch, .shouldBeReal] lines (typeIn ctx line)
    (typeIn ctx' line') := by
  rw [typeIn, typeIn, hl.code, hl.number, h.recasing.group?_find?_map, h.recasing.find?_map]
  cases hsubject : (switchSubject.find? line.code).bind (·.group? 1) with
  | some subject =>
    simp only [Option.map_some, Capture.recased, h.hasType, h.recasing.byteLength_map]
    exact reports_ite (reports_span hmem hl (by simp [Cause.code]) (group_stop_le hsubject))
      reports_nil
  | none =>
    cases hfound : literalAssignment.find? line.code with
    | none => exact reports_nil
    | some found =>
      simp only [Option.map_none, Option.map_some, h.recasing.group?_recased]
      cases found.group? 1 with
      | none => exact reports_nil
      | some name =>
        cases hvalue : found.group? 2 with
        | none => exact reports_nil
        | some value =>
          have hinside := (Pattern.matches_of_find? hfound).inside.group? hvalue
          simp only [Option.map_some, Capture.recased, h.hasType, h.recasing.byteLength_map]
          exact reports_ite (reports_span hmem hl (by simp [Cause.code]) hinside.stop_le)
            reports_nil

lemma reports_speedIn (rule : LineRule) (limit : Float) {cause : Text → Float → Float → Cause}
    (hcode : ∀ a b c, (cause a b c).code ∈ codes)
    (hcause : ∀ a b c, cause (a.map g) b c = (cause a b c).recased g) :
    Reports g ctx codes lines (speedIn ctx rule limit cause line)
      (speedIn ctx' rule limit cause line') := by
  rw [speedIn, speedIn, hl.code, hl.number, h.recasing.group?_find?_map]
  cases hwritten : (rule.find? line.code).bind (·.group? 1) with
  | none => exact reports_nil
  | some written =>
    have hvalue := h.recasing.same Number.read?_upper written.text
    simp only [Option.map_some, Capture.recased, hvalue, hcause, h.recasing.byteLength_map]
    cases Number.read? written.text with
    | none => exact reports_nil
    | some value =>
      exact reports_ite reports_nil
        (reports_span hmem hl (hcode _ _ _) (group_stop_le hwritten))

lemma reports_motionIn (frames : Frames) :
    Reports g ctx [.toolNotInitialized, .baseNotInitialized] lines (motionIn ctx frames line)
      (motionIn ctx' frames line') := by
  rw [motionIn, motionIn, hl.code, hl.number, h.recasing.group?_find?_map]
  cases hkeyword : (motion.find? line.code).bind (·.group? 1) with
  | none => exact reports_nil
  | some keyword =>
    have hle := group_stop_le hkeyword
    simp only [Option.map_some, Capture.recased, h.recasing.byteLength_map]
    exact (reports_ite reports_nil (reports_span hmem hl (by simp [Cause.code]) hle)).append
      (reports_ite reports_nil (reports_span hmem hl (by simp [Cause.code]) hle))

omit h hl in
lemma reports_duplicateRoutine {r r' : Routine}
    (hr : Routine.ofHeader? ctx.text line.code line.number = some r) (hsame : r.Agrees g r') :
    Reports g ctx [.duplicateName] lines (duplicateRoutine d r) (duplicateRoutine d r') := by
  rw [duplicateRoutine, duplicateRoutine, hsame.key, hsame.range, hsame.name]
  cases d.routines.lookup r.key with
  | none => exact reports_nil
  | some first =>
    cases hrange : r.symbol.range with
    | none => exact reports_nil
    | some range =>
      obtain ⟨name, hinside, -, rfl⟩ := Routine.placedIn_of_ofHeader? hr range hrange
      exact reports_marked hmem (by simp [Cause.code]) ⟨_, _, hinside.stop_le, rfl⟩

end Line

/-! ## Walks over the lines -/

section Walk

variable (h : ctx.Agrees g ctx') {walked walked' : List SourceLine}
  (hwalked : List.Forall₂ (fun line line' => line ∈ lines ∧ line.Agrees g ctx ctx' line')
    walked walked')
include h hwalked

lemma reports_visibilityFrom (state : Option Bool) :
    Reports g ctx [.missingGlobal, .globalNotPublic] lines (visibilityFrom ctx state walked)
      (visibilityFrom ctx' state walked') := by
  induction hwalked generalizing state with
  | nil => exact reports_nil
  | @cons line line' rest rest' hl _ ih =>
    obtain ⟨hmem, hl⟩ := hl
    unfold visibilityFrom
    rw [hl.code, h.recasing.find?_map, h.recasing.closesDataList_map]
    cases dataListHeader.find? line.code with
    | some found =>
      simp only [Option.map_some, Match.has, h.recasing.group?_recased, Option.isSome_map]
      exact ih _
    | none =>
      refine reports_ite (ih none) ?_
      cases state with
      | none => exact ih none
      | some isPublic => exact (reports_visibilityOf h hmem hl isPublic).append (ih _)

lemma reports_namesFrom (inside : Bool) :
    Reports g ctx [.nameTooLong, .nameStartsWithDigit] lines (namesFrom ctx inside walked)
      (namesFrom ctx' inside walked') := by
  induction hwalked generalizing inside with
  | nil => exact reports_nil
  | @cons line line' rest rest' hl _ ih =>
    obtain ⟨hmem, hl⟩ := hl
    have hnames := reports_nameOf h hmem hl
    rw [namesFrom, namesFrom]
    rw [hl.code] at hnames ⊢
    rw [h.recasing.holds_map, h.recasing.closesDataList_map]
    exact reports_ite (ih _) (reports_ite (ih _) (reports_ite (hnames.append (ih _)) (ih _)))

lemma reports_duplicatesFrom (d : Declared) :
    Reports g ctx [.duplicateName] lines (duplicatesFrom ctx d walked)
      (duplicatesFrom ctx' d walked') := by
  induction hwalked generalizing d with
  | nil => exact reports_nil
  | @cons line line' rest rest' hl _ ih =>
    obtain ⟨hmem, hl⟩ := hl
    have hheader := hl.header h.recasing
    rw [duplicatesFrom, duplicatesFrom]
    generalize Routine.ofHeader? ctx'.text line'.code line'.number = found at hheader ⊢
    cases hr : Routine.ofHeader? ctx.text line.code line.number with
    | some r =>
      rw [hr] at hheader
      cases hheader with
      | @some _ r' hsame =>
        simp only [hsame.key, hl.number, Declared.enter, hsame.params]
        exact (reports_duplicateRoutine hmem hr hsame).append (ih _)
    | none =>
      rw [hr] at hheader
      cases hheader
      simp only [hl.code, hl.number, h.recasing.find?_map, h.declaredIn]
      cases scopeCloser.find? line.code with
      | some found =>
        simp only [Option.map_some, h.recasing.text_recased, h.recasing.sameName_map]
        exact ih _
      | none =>
        obtain ⟨hnames, hstate⟩ := reports_duplicatesIn h hmem hl d (List.Subset.refl _)
        simp only [Option.map_none, hstate]
        exact hnames.append (ih _)

lemma reports_deadFrom (isDead : Bool) :
    Reports g ctx [.deadCode] lines (deadFrom ctx isDead walked)
      (deadFrom ctx' isDead walked') := by
  induction hwalked generalizing isDead with
  | nil => exact reports_nil
  | @cons line line' rest rest' hl _ ih =>
    obtain ⟨hmem, hl⟩ := hl
    rw [deadFrom, deadFrom, restores, restores, hl.code, hl.isCode]
    simp only [h.recasing.holds_map]
    exact reports_ite
      (reports_ite ((reports_codeRange h hmem hl (by simp [Cause.code])).append (ih _)) (ih _))
      (ih _)

lemma reports_motionFrom (frames : Frames) :
    Reports g ctx [.toolNotInitialized, .baseNotInitialized] lines (motionFrom ctx frames walked)
      (motionFrom ctx' frames walked') := by
  induction hwalked generalizing frames with
  | nil => exact reports_nil
  | @cons line line' rest rest' hl _ ih =>
    obtain ⟨hmem, hl⟩ := hl
    simp only [motionFrom, hl.code, Frames.after, h.recasing.holds_map]
    exact reports_ite (ih _) ((reports_motionIn h hmem hl _).append (ih _))

/-- The search for a closer succeeds in both documents or in neither, and the body up to it is
empty in both or in neither. -/
lemma map_isEmptyBody_closerFrom (kind : BlockKind) (depth : Nat) :
    (closerFrom kind depth walked').map
        (fun (inner, last, column) => isEmptyBody inner last column) =
      (closerFrom kind depth walked).map fun (inner, last, column) =>
        isEmptyBody inner last column := by
  induction hwalked generalizing depth with
  | nil => rfl
  | @cons line line' rest rest' hl _ ih =>
    have hopener := h.recasing.same (Pattern.isIn_upper kind.ignoresCase_openerPattern) line.code
    have hclose : ∀ depth, closeIn depth (kind.closerPattern.occurrences (line.code.map g)) =
        closeIn depth (kind.closerPattern.occurrences line.code) := fun depth =>
      h.recasing.same (F := fun a => closeIn depth (kind.closerPattern.occurrences a))
        (fun a => by rw [Pattern.occurrences_upper kind.ignoresCase_closerPattern, closeIn_inUpper])
        line.code
    have helse := h.recasing.same (F := isBareElse)
      (fun a => by rw [isBareElse, isBareElse, trim_upper, sameName_upper_left]) line.code
    simp only [closerFrom, hl.2.code, hopener, hclose]
    cases closeIn (if kind.openerPattern.isIn line.code then depth + 1 else depth)
        (kind.closerPattern.occurrences line.code) with
    | inr column =>
      have hblank := h.recasing.same (F := fun a => allBlank (takeBytes column a))
        (fun a => by rw [takeBytes_upper, allBlank_upper]) line.code
      simp only [Option.map_some, isEmptyBody, hl.2.code, all_nil, hblank]
    | inl depth =>
      -- A line in front of the closer is judged by its kind and its code alone.
      have hcons : ∀ (line : SourceLine) found, (Option.map (fun (inner, last, column) =>
          isEmptyBody inner last column) (Option.map (fun (inner, last, column) =>
            (line :: inner, last, column)) found)) =
          (Option.map (fun (inner, last, column) => isEmptyBody inner last column) found).map
            ((!line.kind.isCode || isBareElse line.code) && ·) := by
        intro line found
        rw [Option.map_map, Option.map_map]
        refine Option.map_congr fun result _ => ?_
        simp only [Function.comp_apply, isEmptyBody, all_cons, Bool.and_assoc]
      simp only [hcons, ih, hl.2.isCode, hl.2.code, helse]

lemma reports_emptyFrom (kind : BlockKind) :
    Reports g ctx [.emptyBlock] lines (emptyFrom ctx kind walked)
      (emptyFrom ctx' kind walked') := by
  induction hwalked with
  | nil => exact reports_nil
  | @cons line line' rest rest' hl hrest ih =>
    obtain ⟨hmem, hl⟩ := hl
    refine Reports.append ?_ ih
    have hbody := map_isEmptyBody_closerFrom h hrest kind 0
    have hfind := h.recasing.apply (M := fun g => Option.map (Match.recased g)) (by simp)
      (Pattern.find?_upper kind.ignoresCase_openerPattern) line.code
    rw [emptyAt, emptyAt, hl.code, hl.number, hfind]
    cases hfound : kind.openerPattern.find? line.code with
    | none => exact reports_nil
    | some found =>
      have hcloser := h.recasing.same
        (F := fun a => kind.closerPattern.isIn (dropBytes found.whole.stop a)) (fun a => by
          rw [dropBytes_upper, Pattern.isIn_upper kind.ignoresCase_closerPattern]) line.code
      simp only [Option.map_some, h.recasing.stop_recased, hcloser]
      refine reports_ite reports_nil ?_
      cases hclosed : closerFrom kind 0 rest with
      | none =>
        rw [hclosed, Option.map_none, Option.map_eq_none_iff] at hbody
        rw [hbody]
        exact reports_nil
      | some result =>
        obtain ⟨inner, last, column⟩ := result
        rw [hclosed, Option.map_some, Option.map_eq_some_iff] at hbody
        obtain ⟨⟨inner', last', column'⟩, hclosed', hempty⟩ := hbody
        simp only [hclosed', hempty]
        exact reports_ite
          (reports_span hmem hl (by simp [Cause.code]) (BlockKind.opener_stop_le hfound))
          reports_nil

end Walk

/-! ## All lines -/

section Document

variable (h : ctx.Agrees g ctx')
include h

lemma flatMap_lines_eq {α : Type} {k k' : SourceLine → List α}
    (hk : ∀ line line', line.Agrees g ctx ctx' line' → k' line' = k line) :
    ctx'.lines.flatMap k' = ctx.lines.flatMap k := by
  have hall : List.Forall₂ (· = ·) (ctx.lines.flatMap k) (ctx'.lines.flatMap k') :=
    rel_flatMap h.lines fun line line' hl => by rw [hk line line' hl, forall₂_eq_eq_eq]
  rwa [forall₂_eq_eq_eq, eq_comm] at hall

lemma labels_eq : labels ctx' = labels ctx := by
  have hcolon : ∀ c, (upperChar c == ':') = (c == ':') := beq_upperChar (by decide)
  rw [labels, labels, filterMap_eq_flatMap_toList, filterMap_eq_flatMap_toList]
  refine flatMap_lines_eq h fun line line' hl => ?_
  have hword := h.recasing.same (F := fun a =>
    (blankSeparated (trimEnd (dropEndWhile (· == ':') (trim a)))).head?.map upper) (fun a => by
      simp only [trim_upper, dropEndWhile_upper (p := (· == ':')) hcolon, trimEnd_upper,
        blankSeparated_upper, head?_map, Option.map_map, Function.comp_def, upper_upper]) line.code
  rw [hl.code, h.recasing.holds_map, hword]

lemma reports_balance :
    Reports g ctx [.unmatchedBlock, .unclosedBlock] ctx.lines (balance ctx) (balance ctx') := by
  have hevents : blockEvents ctx' = blockEvents ctx := flatMap_lines_eq h fun line line' hl => by
    rw [hl.code, hl.number]
    exact h.recasing.same (F := (BlockEvent.ofLine · line.number)) (BlockEvent.ofLine_upper · _) _
  have hspans : ∀ line ∈ ctx.lines, SameSpans ctx.text ctx'.text line.number line.code :=
    ((forall₂_and_left _ _).mp (h.lines.imp fun _ _ hl => ⟨hl.spans, hl⟩)).1
  obtain ⟨marks, hmarks, hfound⟩ := exists_balanceFrom_eq_map [] (blockEvents ctx)
  rw [balance, balance, hevents, hfound, hfound, ← filterMap_eq_map, ← filterMap_eq_map]
  refine reports_filterMap fun m hm => ?_
  obtain ⟨event, cause⟩ := m
  obtain ⟨hevent, hcode⟩ := hmarks _ hm
  obtain ⟨line, hline, hevent⟩ := mem_flatMap.mp hevent
  obtain ⟨hnumber, hle⟩ := BlockEvent.column_add_length_le hevent
  have hrange : eventRange ctx' event = eventRange ctx event := by
    rw [eventRange, eventRange, hnumber]
    exact hspans line hline _ _ hle
  -- These findings quote no text of the document.
  have hcause : cause.recased g = cause := by
    cases cause <;> first | rfl | simp [Cause.code] at hcode
  have hmarks : line.Marks ctx ⟨eventRange ctx event, cause⟩ := ⟨_, _, hle, by rw [← hnumber]; rfl⟩
  simpa only [Function.comp_apply, Option.toList_some, recased, hcause, hrange]
    using reports_marked (g := g) hline hcode hmarks

/-! ## The checks of a report -/

/-- What each check of the code finds, with the codes of the check, in the order of a report. -/
def codeChecks (ctx : Context) (isSystemFile : Bool) : List (List FindingCode × List Finding) :=
  [([.undefinedVariable], if isSystemFile then [] else undeclared ctx),
    ([.missingGlobal, .globalNotPublic], visibility ctx),
    ([.nameTooLong, .nameStartsWithDigit], names ctx),
    ([.unmatchedBlock, .unclosedBlock], balance ctx),
    ([.duplicateName], duplicates ctx),
    ([.deadCode], dead ctx),
    ([.emptyBlock], emptyBlocks ctx),
    ([.waitWithoutTimeout, .haltStatement], stops ctx),
    ([.realInSwitch, .shouldBeReal], typeUses ctx),
    ([.unsafePathSpeed, .unsafeAxisSpeed], speeds ctx),
    ([.toolNotInitialized, .baseNotInitialized], motions ctx)]

/-- **Documents that agree get the same from each check.** -/
lemma forall₂_codeChecks (isSystemFile : Bool) :
    List.Forall₂ (fun check check' => check'.1 = check.1 ∧
      Reports g ctx check.1 ctx.lines check.2 check'.2)
      (codeChecks ctx isSystemFile) (codeChecks ctx' isSystemFile) := by
  have hlines := (forall₂_and_left _ _).mpr ⟨fun line (hline : line ∈ ctx.lines) => hline, h.lines⟩
  have hundeclared : Reports g ctx [.undefinedVariable] ctx.lines (undeclared ctx)
      (undeclared ctx') := by
    rw [undeclared, undeclared, labels_eq h]
    exact reports_flatMap hlines fun _ _ hl => reports_undeclaredIn h hl.1 hl.2 _
  exact .cons ⟨rfl, reports_ite reports_nil hundeclared⟩
    (.cons ⟨rfl, reports_visibilityFrom h hlines _⟩
    (.cons ⟨rfl, reports_namesFrom h hlines _⟩
    (.cons ⟨rfl, reports_balance h⟩
    (.cons ⟨rfl, reports_duplicatesFrom h hlines _⟩
    (.cons ⟨rfl, reports_deadFrom h hlines _⟩
    (.cons ⟨rfl, reports_flatMap (forall₂_same.mpr fun _ _ => rfl) fun kind _ hkind =>
      hkind ▸ reports_emptyFrom h hlines kind⟩
    (.cons ⟨rfl, reports_flatMap hlines fun _ _ hl => reports_stopsIn h hl.1 hl.2⟩
    (.cons ⟨rfl, reports_flatMap hlines fun _ _ hl => reports_typeIn h hl.1 hl.2⟩
    (.cons ⟨rfl, reports_flatMap hlines fun _ _ hl =>
      (reports_speedIn h hl.1 hl.2 _ _ (by simp [Cause.code]) fun _ _ _ => rfl).append
        (reports_speedIn h hl.1 hl.2 _ _ (by simp [Cause.code]) fun _ _ _ => rfl)⟩
    (.cons ⟨rfl, reports_motionFrom h hlines _⟩ .nil))))))))))

/-- Documents that agree get the same from all checks of the code together. -/
lemma flatMap_codeChecks_eq (isSystemFile : Bool) :
    (codeChecks ctx' isSystemFile).flatMap (·.2) =
      ((codeChecks ctx isSystemFile).flatMap (·.2)).map (recased g) := by
  have hchecks := forall₂_codeChecks h isSystemFile
  generalize codeChecks ctx isSystemFile = found, codeChecks ctx' isSystemFile = found' at hchecks ⊢
  induction hchecks with
  | nil => rfl
  | cons hcheck _ ih => rw [flatMap_cons, flatMap_cons, map_append, hcheck.2.same, ih]

end Document

end Finding

end KrlWorkbench
