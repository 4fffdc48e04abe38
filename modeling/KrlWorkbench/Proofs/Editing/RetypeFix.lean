import KrlWorkbench.Editing.QuickFix
import KrlWorkbench.Proofs.Finding.CheckCodes
import KrlWorkbench.Proofs.Service.LocalDefinition
import KrlWorkbench.Proofs.Symbol.DeclarationLists
import KrlWorkbench.Proofs.Text.LineEdits

/-!
# Changing the type of a variable

An integer variable that gets a decimal value should be a real one.  The fix looks up in the table
where the variable is declared, and in that line it looks for the word that is the variable's type.

Only a typed list gives a variable both a place and a type, and the table takes them from the same
declaration (`Symbol.exists_takenFrom`), so the line is one (`TypeToken.exists_of_recorded`).  In
front of its type stand modifiers only, hence the word that is found is the type.  With another type
the line declares the same names, so the table of the edited document lists the same symbols in the
same order (`SymbolTable.rel_retyped`), and those that were recorded from the line have the new
type.
-/

namespace KrlWorkbench

open List Code KrlWorkbench.Symbol SymbolTable Text

variable {text T n : Text} {s : Symbol}

/-! ## Where a table takes its symbols from -/

namespace Symbol

/-- Type and place are those of a declaration of the same name. -/
structure TakenFrom (s declared : Symbol) : Prop where
  key : declared.key = s.key
  typeName : declared.typeName = s.typeName
  range : declared.range = s.range

lemma exists_takenFrom (declared : List Symbol) :
    ∀ s ∈ declared.foldl (fun found s => s.add found) [], ∃ d ∈ declared, s.TakenFrom d := by
  refine forall_mem_foldl_add (Q := (· ∈ declared)) (fun s hs => ⟨s, hs, rfl, rfl, rfl⟩)
    (fun old new hold hnew hkey => ?_) (fun _ hs => hs) (by simp)
  rw [refine]
  split
  case isTrue => exact ⟨new, hnew, hkey.symm, rfl, rfl⟩
  case isFalse => exact hold

/-- What has a place and a type is a variable of a typed list. -/
lemma exists_parts_of_mem_ofLine {code : Text} {types : List Text} {line : Nat}
    (hs : s ∈ ofLine text types line code) (hrange : s.range ≠ none) (htype : s.typeName = some T) :
    ∃ parts, TypedList.ofCode? types code = some parts ∧ parts.typeName = T := by
  cases fromLine_of_mem hs with
  | parameter => exact absurd rfl hrange
  | enumMember => exact absurd rfl hrange
  | record => cases htype
  | signal => cases htype
  | var hparts => exact ⟨_, hparts, Option.some.inj htype⟩

end Symbol

/-! ## Tables in step -/

section InStep

variable {R : Symbol → Symbol → Prop} (hkey : ∀ {s s'}, R s s' → s'.key = s.key)
  (hrefine : ∀ {old old' new new'}, R old old' → R new new' →
    R (old.refine new) (old'.refine new'))
include hkey hrefine

lemma Symbol.rel_add {new new' : Symbol} (hnew : R new new') {found found' : List Symbol}
    (h : List.Forall₂ R found found') : List.Forall₂ R (new.add found) (new'.add found') := by
  induction h with
  | nil => exact .cons hnew .nil
  | @cons old old' found found' hold hfound ih =>
    rw [add, add, hkey hold, hkey hnew]
    by_cases hsame : (old.key == new.key) = true
    · rw [if_pos hsame, if_pos hsame]
      exact .cons (hrefine hold hnew) hfound
    · rw [if_neg hsame, if_neg hsame]
      exact .cons hold ih

/-- Declarations that are related one by one give tables that are. -/
lemma Symbol.rel_foldl_add {declared declared' : List Symbol}
    (h : List.Forall₂ R declared declared') :
    List.Forall₂ R (declared.foldl (fun found s => s.add found) [])
      (declared'.foldl (fun found s => s.add found) []) := by
  refine rel_foldl (P := List.Forall₂ R) (R := R) ?_ .nil h
  intro found found' hfound new new' hnew
  exact rel_add hkey hrefine hnew hfound

end InStep

/-! ## Another type in a line -/

/-- The second symbol is declared as the first, and if this stands in line `k` and has a type, with
the type `T`. -/
structure Symbol.RetypedIn (k : Nat) (T : Text) (s s' : Symbol) : Prop where
  name : s'.name = s.name
  kind : s'.kind = s.kind
  typed : s'.typeName.isSome = s.typeName.isSome
  retyped : ∀ r, s.range = some r → r.start.line = k → s.typeName.isSome = true →
    s'.typeName = some T

namespace Symbol.RetypedIn

variable {k : Nat} {T : Text}

lemma of_ne (h : ∀ r, s.range = some r → r.start.line ≠ k) : RetypedIn k T s s :=
  ⟨rfl, rfl, rfl, fun r hr hline => absurd hline (h r hr)⟩

lemma key_eq {s' : Symbol} (h : RetypedIn k T s s') : s'.key = s.key :=
  congrArg upper h.name

lemma refine {old old' new new' : Symbol} (hold : RetypedIn k T old old')
    (hnew : RetypedIn k T new new') : RetypedIn k T (old.refine new) (old'.refine new') := by
  have hnone : old'.typeName.isNone = old.typeName.isNone := by
    rw [← Option.not_isSome, ← Option.not_isSome, hold.typed]
  rw [Symbol.refine, Symbol.refine, hold.kind, hnone]
  split
  case isTrue => exact ⟨hold.name, rfl, hnew.typed, hnew.retyped⟩
  case isFalse => exact hold

end Symbol.RetypedIn

lemma Symbol.rel_ofTypedList (text text' : Text) (k : Nat) (parts : TypedList) (T : Text)
    (column : Nat) :
    List.Forall₂ (RetypedIn k T) (ofTypedList text k parts)
      (ofTypedList text' k { parts with typeName := T, listStart := column }) := by
  refine rel_filterMap (R := Eq) ?_ (forall₂_same.mpr fun _ _ => rfl)
  rintro item _ rfl
  dsimp only
  split
  case isTrue => exact .some ⟨rfl, rfl, rfl, fun _ _ _ _ => rfl⟩
  case isFalse => exact .none

namespace Text.Replaced

variable {text text' old new : Text} {k : Nat} (h : Replaced text k old new text')
include h

/-- The other lines have the same numbers in both documents, and the same code. -/
lemma exists_codeLines (hold : allBlank (codePart old) = false)
    (hnew : allBlank (codePart new) = false) :
    ∃ above below, codeLines text = above ++ (k, codePart old) :: below ∧
      codeLines text' = above ++ (k, codePart new) :: below ∧ ∀ e ∈ above ++ below, e.1 ≠ k := by
  obtain ⟨above, below, hlines, hlines', rfl⟩ := h.exists_split
  let code (entries : List (Text × Nat)) : List (Nat × Text) :=
    (entries.map fun e => (e.2, codePart e.1)).filter fun e => !allBlank e.2
  have hcode : ∀ text, codeLines text = code text.lines.zipIdx := fun _ => rfl
  have hcut : ∀ {mid : Text}, allBlank (codePart mid) = false →
      code (above ++ mid :: below).zipIdx =
        code above.zipIdx ++ (above.length, codePart mid) ::
          code (below.zipIdx (above.length + 1)) := by
    intro mid hmid
    rw [zipIdx_append, zipIdx_cons]
    simp [code, hmid]
  refine ⟨code above.zipIdx, code (below.zipIdx (above.length + 1)), ?_, ?_, fun e he => ?_⟩
  · rw [hcode, hlines, hcut hold]
  · rw [hcode, hlines', hcut hnew]
  · rcases mem_append.mp he with he | he
    · obtain ⟨entry, hentry, rfl⟩ := mem_map.mp (mem_filter.mp he).1
      have hlt := snd_lt_of_mem_zipIdx hentry
      omega
    · obtain ⟨entry, hentry, rfl⟩ := mem_map.mp (mem_filter.mp he).1
      have hle := le_snd_of_mem_zipIdx hentry
      omega

/-- The declarations of all lines, with those of line `k` in their midst. -/
lemma exists_declared (hold : allBlank (codePart old) = false)
    (hnew : allBlank (codePart new) = false) (types : List Text) :
    ∃ above below,
      (codeLines text).flatMap (fun e => ofLine text types e.1 e.2) =
        above ++ (ofLine text types k (codePart old) ++ below) ∧
      (codeLines text').flatMap (fun e => ofLine text' types e.1 e.2) =
        above ++ (ofLine text' types k (codePart new) ++ below) ∧
      ∀ s ∈ above ++ below, ∀ r, s.range = some r → r.start.line ≠ k := by
  obtain ⟨above, below, hcode, hcode', hne⟩ := h.exists_codeLines hold hnew
  have hraw : ∀ e ∈ above ++ below, ∃ raw, text.lines[e.1]? = some raw ∧
      text'.lines[e.1]? = some raw ∧ e.2 = codePart raw := by
    intro e he
    have hmem : e ∈ codeLines text := by
      rw [hcode]
      exact mem_append.mpr ((mem_append.mp he).imp_right (mem_cons_of_mem _))
    obtain ⟨raw, hraw, hpart, -⟩ := mem_codeLines_iff.mp hmem
    exact ⟨raw, hraw, (h.getElem?_of_ne (hne e he)).trans hraw, hpart.symm⟩
  -- Ranges in other lines are the same in both texts.
  have hsame : ∀ e ∈ above ++ below,
      ofLine text' types e.1 e.2 = ofLine text types e.1 e.2 := by
    intro e he
    obtain ⟨raw, hraw, hraw', hpart⟩ := hraw e he
    refine ofLine_eq (fun column length hle => ?_) types
    have hle' : column + length ≤ byteLength raw :=
      hle.trans (hpart ▸ byteLength_le_of_isPrefix (codePart_isPrefix raw))
    rw [span_eq hraw hle', span_eq hraw' hle']
  refine ⟨above.flatMap fun e => ofLine text types e.1 e.2,
    below.flatMap fun e => ofLine text types e.1 e.2, ?_, ?_, fun s hs r hr => ?_⟩
  · rw [hcode, flatMap_append, flatMap_cons]
  · rw [hcode', flatMap_append, flatMap_cons,
      flatMap_congr fun e he => hsame e (mem_append_left _ he),
      flatMap_congr fun e he => hsame e (mem_append_right _ he)]
  · rw [← flatMap_append] at hs
    obtain ⟨e, he, hs⟩ := mem_flatMap.mp hs
    obtain ⟨raw, hraw, -, hpart⟩ := hraw e he
    rw [hpart] at hs
    rw [line_of_mem_ofLine hraw hs hr]
    exact hne e he

end Text.Replaced

open LineRule

lemma LineRule.TypedLine.codePart_withType {lead front s list rest T' : Text}
    (h : TypedLine (codePart (lead ++ front ++ (T ++ rest))) lead front T s list)
    (hbreak : NoBreak (lead ++ front ++ (T ++ rest))) (hT : IsWord T) (hT' : IsWord T') :
    codePart (lead ++ front ++ (T' ++ rest)) = lead ++ (front ++ (T' ++ (s ++ list))) := by
  have hfront : IsCode (lead ++ front) := by
    refine isCode_of_isBlank_or_isWordChar (forall_mem_append.mpr ⟨fun c hc => ?_,
      h.modifiers.isBlank_or_isWordChar⟩) (noBreak_append.mp hbreak).1
    exact .inl (h.isBlanks_lead c hc)
  have hcode : ∀ {T}, IsWord T → codePart (lead ++ front ++ (T ++ rest)) =
      lead ++ front ++ (T ++ codePart rest) := by
    intro T hT
    rw [hfront.codePart_append, hT.isCode.codePart_append]
  have hrest : codePart rest = s ++ list := by
    have heq := h.eq
    rw [hcode hT, ← append_assoc lead] at heq
    exact append_cancel_left (append_cancel_left heq)
  rw [hcode hT', hrest, append_assoc]

/-- **Tables in step.**  If a line declares variables of a type, and with another type that is built
in after an edit, the table of the edited document lists the same symbols, those of the line with
the new type. -/
lemma SymbolTable.rel_retyped {text' old new lead front s list T' : Text} {k : Nat}
    {parts : TypedList} (h : Replaced text k old new text')
    (hold : TypedLine (codePart old) lead front T s list)
    (hnew : codePart new = lead ++ (front ++ (T' ++ (s ++ list)))) (hT : IsTypeWord T)
    (hT' : IsTypeWord T') (hproper : TypedList.notTypes.contains (upper T') = false)
    (hbuiltin : BuiltinType.isBuiltinType T' = true)
    (hparts : TypedList.ofCode? (TypeDefinition.keysOf text.lines) (codePart old) = some parts)
    : List.Forall₂ (RetypedIn k T') (collect text).symbols (collect text').symbols := by
  have hline' : TypedLine (codePart new) lead front T' s list := hnew ▸ hold.withType T'
  have hnone : ∀ rule ∈ keywordRules, rule.find? (codePart old) = none :=
    fun _ => hold.find?_eq_none hT
  have hnone' : ∀ rule ∈ keywordRules, rule.find? (codePart new) = none :=
    fun _ => hline'.find?_eq_none hT'
  have hkeys : TypeDefinition.keysOf text'.lines = TypeDefinition.keysOf text.lines :=
    h.filterMap_lines (by rw [hnone _ (by decide), hnone' _ (by decide)])
  have hparts' := TypedList.ofCode?_withType hold hT hT' hproper hbuiltin hparts
  rw [← hnew] at hparts'
  obtain ⟨above, below, hdeclared, hdeclared', hplace⟩ := h.exists_declared
    (hold.not_allBlank hT) (hline'.not_allBlank hT') (TypeDefinition.keysOf text.lines)
  rw [(ofLine_eq_ofTypedList hnone hparts text k).2.2] at hdeclared
  rw [(ofLine_eq_ofTypedList hnone' hparts' text' k).2.2] at hdeclared'
  have hsame : ∀ {symbols : List Symbol}, symbols ⊆ above ++ below →
      List.Forall₂ (RetypedIn k T') symbols symbols := fun hsub =>
    forall₂_same.mpr fun s hs => .of_ne (hplace s (hsub hs))
  refine rel_foldl_add RetypedIn.key_eq RetypedIn.refine ?_
  rw [hkeys, hdeclared, hdeclared']
  exact rel_append (hsame (subset_append_left above below))
    (rel_append (rel_ofTypedList text text' k parts T' _)
      (hsame (subset_append_right above below)))

/-! ## The fix -/

/-- The table takes type and place of the name from a declaration in line `k`, and the type of this
declaration is what stands behind `front`. -/
structure TypeToken (text n : Text) (k : Nat) (front T rest : Text) : Prop where
  line : text.lines[k]? = some (front ++ (T ++ rest))
  token : (declaration.find? (codePart (front ++ (T ++ rest)))).bind (·.group? 6) =
    some ⟨byteLength front, T⟩
  recorded : ∃ s declared, (collect text).symbol? n = some s ∧ s.TakenFrom declared ∧
    s.range.isSome = true ∧ s.typeName = some T ∧
    declared ∈ ofLine text (TypeDefinition.keysOf text.lines) k
      (codePart (front ++ (T ++ rest)))

/-- Where a place and a type are recorded there is a typed line. -/
lemma TypeToken.exists_of_recorded {raw : Text} {r : Range}
    (hs : (collect text).symbol? n = some s) (hr : s.range = some r)
    (htype : s.typeName = some T) (hraw : text.lines[r.start.line]? = some raw) :
    ∃ lead front rest s list parts, raw = lead ++ front ++ (T ++ rest) ∧
      TypeToken text n r.start.line (lead ++ front) T rest ∧
      TypedLine (codePart raw) lead front T s list ∧
      TypedList.ofCode? (TypeDefinition.keysOf text.lines) (codePart raw) = some parts := by
  obtain ⟨d, hd, htaken⟩ := exists_takenFrom _ s (mem_of_find?_eq_some hs)
  obtain ⟨⟨k, code⟩, hcode, hd⟩ := mem_flatMap.mp hd
  obtain ⟨raw', hraw', rfl, -⟩ := mem_codeLines_iff.mp hcode
  obtain rfl := line_of_mem_ofLine hraw' hd (htaken.range.trans hr)
  obtain rfl := Option.some.inj (hraw.symm.trans hraw')
  obtain ⟨parts, hparts, rfl⟩ := exists_parts_of_mem_ofLine hd
    (by rw [htaken.range, hr]; exact Option.some_ne_none r) (htaken.typeName.trans htype)
  obtain ⟨lead, front, gap, list, htyped, htoken⟩ := TypedList.exists_typedLine hparts
  obtain ⟨comment, hcomment⟩ := codePart_isPrefix raw
  have hsplit : raw = lead ++ front ++ (parts.typeName ++ (gap ++ (list ++ comment))) := by
    rw [← hcomment, htyped.eq]
    simp
  refine ⟨lead, front, gap ++ (list ++ comment), gap, list, parts, hsplit, ?_, htyped, hparts⟩
  rw [hsplit] at hraw htoken hd
  exact ⟨hraw, htoken, s, d, hs, htaken, by rw [hr]; rfl, htype, hd⟩

lemma isTypeWord_int : IsTypeWord "INT".toList :=
  ⟨by decide, by decide, by decide⟩

lemma isTypeWord_real : IsTypeWord "REAL".toList :=
  ⟨by decide, by decide, by decide⟩

/-- Lists in step have related symbols for a name. -/
lemma Symbol.exists_find?_of_rel {R : Symbol → Symbol → Prop}
    (hname : ∀ {s s'}, R s s' → s'.name = s.name) {l l' : List Symbol} (h : List.Forall₂ R l l')
    (hs : l.find? (fun s => sameName s.name n) = some s) :
    ∃ s', l'.find? (fun s => sameName s.name n) = some s' ∧ R s s' := by
  induction h with
  | nil => cases hs
  | @cons a a' l l' ha _ ih =>
    rw [find?_cons] at hs ⊢
    rw [hname ha]
    cases hsame : sameName a.name n <;> rw [hsame] at hs
    case true =>
      obtain rfl := Option.some.inj hs
      exact ⟨a', rfl, ha⟩
    case false => exact ih hs

/-- **The fix changes the type.**  The first word in the line that reads like the type is the type
of the declaration.  With `REAL` in its place the variable is real. -/
lemma QuickFix.exists_retyped {range : Range} (h : typeRange? text n = some range)
    (htype : ((collect text).symbol? n).bind (·.typeName) = some T)
    (hint : sameName T "INT".toList = true) :
    ∃ k front rest text', TypeToken text n k front T rest ∧
      range = text.span k (byteLength front) (byteLength T) ∧
      text.applyEdits [⟨range, "REAL".toList⟩] = some text' ∧
      text'.lines = text.lines.set k (front ++ ("REAL".toList ++ rest)) ∧
      text'.breaks = text.breaks ∧
      ((collect text').symbol? n).bind (·.typeName) = some "REAL".toList := by
  have hT := isTypeWord_int.of_sameName hint
  simp only [typeRange?, Option.bind_eq_bind, Option.bind_eq_some_iff] at h
  obtain ⟨s, hs, r, hr, T', htype', raw, hraw, m, hm, hrange⟩ := h
  obtain rfl : T' = T := by simpa [hs, htype'] using htype
  obtain ⟨lead, front, rest, gap, list, parts, rfl, htoken, htyped, hparts⟩ :=
    TypeToken.exists_of_recorded hs hr htype' hraw
  obtain ⟨m', hm', hwhole⟩ := htyped.exists_find?_wholeWord hT
  obtain rfl := Option.some.inj (hm.symm.trans hm')
  obtain rfl : text.span r.start.line (byteLength (lead ++ front)) (byteLength T') = range := by
    simpa [hwhole] using hrange
  obtain ⟨text', happly, hlines, hbreaks⟩ := exists_applyEdits_span hraw
    (isTypeWord_real.isWord.isCode.noBreak) (by simp)
  have hcode := htyped.codePart_withType (noBreak_of_mem_lines (mem_of_getElem? hraw))
    hT.isWord isTypeWord_real.isWord
  have hrel := rel_retyped ⟨hraw, hlines⟩ htyped hcode hT isTypeWord_real (by decide)
    (by decide) hparts
  obtain ⟨s', hs', hretyped⟩ := exists_find?_of_rel (fun h => h.name) hrel hs
  refine ⟨r.start.line, lead ++ front, rest, text', htoken, rfl, happly, hlines, hbreaks, ?_⟩
  rw [symbol?, hs', Option.bind_some]
  exact hretyped.retyped r hr rfl (by rw [htype']; rfl)

/-! ## The findings -/

namespace Finding

lemma exists_of_mem_typeUses {ctx : Context} {f : Finding} (hf : f ∈ typeUses ctx)
    (hcode : f.cause.code = .shouldBeReal) :
    ∃ m v, f.cause = .shouldBeReal m v ∧ hasType ctx m "INT" = true := by
  obtain ⟨line, -, hf⟩ := mem_flatMap.mp hf
  rw [typeIn] at hf
  split at hf
  case h_1 =>
    split at hf
    case isTrue =>
      obtain rfl := mem_singleton.mp hf
      cases hcode
    case isFalse => cases hf
  case h_2 =>
    split at hf
    case h_1 => cases hf
    case h_2 =>
      split at hf
      case h_1 =>
        split at hf
        case isTrue hint =>
          obtain rfl := mem_singleton.mp hf
          exact ⟨_, _, rfl, hint⟩
        case isFalse => cases hf
      case h_2 => cases hf

end Finding

lemma Diagnostic.dataText?_shouldBeReal (locale : Locale) (range : Range) (m v : Text) :
    (ofFinding locale ⟨range, .shouldBeReal m v⟩).dataText? "varName" = some m ∧
      (ofFinding locale ⟨range, .shouldBeReal m v⟩).dataText? "value" = some v := by
  simp [dataText?, ofFinding, Cause.data, Json.get?, Json.str?, Json.ofText, lookup_cons]

/-- The type that the document gives counts. -/
lemma Context.variableType?_eq_some
    (h : ((collect text).symbol? n).bind (·.typeName) = some T) (view : WorkspaceView) :
    (ofText text view).variableType? n = some T := by
  change (((collect text).symbol? n).bind _).or _ = _
  rw [h, Option.some_or]

section Diagnostics

variable {text n T : Text} {isSystemFile : Bool} {view : WorkspaceView} {options : Finding.Options}
  {d : Diagnostic}

lemma exists_shouldBeReal_of_mem_diagnose (hd : d ∈ diagnose text isSystemFile view options)
    (hcode : d.code? = some .shouldBeReal) :
    ∃ range m v, d = Diagnostic.ofFinding options.locale ⟨range, .shouldBeReal m v⟩ ∧
      Finding.hasType (Context.ofText text view) m "INT" = true := by
  obtain ⟨⟨range, cause⟩, hf, hcause, rfl⟩ := exists_finding_of_mem_diagnose
    (i := 8) rfl hd hcode (by decide)
  obtain ⟨m, v, rfl, hint⟩ := Finding.exists_of_mem_typeUses hf hcause
  exact ⟨range, m, v, rfl, hint⟩

/-- No decimal value is held against a variable that the document declares with another type. -/
lemma isAbout_eq_false_of_typeName
    (htype : ((collect text).symbol? n).bind (·.typeName) = some T)
    (hT : sameName T "INT".toList = false) (hd : d ∈ diagnose text isSystemFile view options)
    (hcode : d.code? = some .shouldBeReal) : d.isAbout n = false := by
  obtain ⟨range, m, v, rfl, hint⟩ := exists_shouldBeReal_of_mem_diagnose hd hcode
  rw [Diagnostic.isAbout, (Diagnostic.dataText?_shouldBeReal ..).1, Option.any_some,
    Bool.eq_false_iff]
  intro hsame
  have hsymbol : (collect text).symbol? m = (collect text).symbol? n := by
    rw [symbol?, symbol?]
    simp only [sameName, beq_iff_eq.mp hsame]
  rw [← hsymbol] at htype
  rw [Finding.hasType, Context.variableType?_eq_some htype, Option.any_some, hT] at hint
  cases hint

end Diagnostics

/-- The fix is offered where the document gives the variable a type, and this is the type that
counts. -/
lemma QuickFix.exists_type_of_typeRange? {view : WorkspaceView} {range : Range}
    (h : typeRange? text n = some range)
    (hint : Finding.hasType (Context.ofText text view) n "INT" = true) :
    ∃ T, ((collect text).symbol? n).bind (·.typeName) = some T ∧
      sameName T "INT".toList = true := by
  simp only [typeRange?, Option.bind_eq_bind, Option.bind_eq_some_iff] at h
  obtain ⟨s, hs, _, _, T, htype, -⟩ := h
  have hbind : ((collect text).symbol? n).bind (·.typeName) = some T := by
    rw [hs, Option.bind_some, htype]
  rw [Finding.hasType, Context.variableType?_eq_some hbind, Option.any_some] at hint
  exact ⟨T, hbind, hint⟩

/-- The fix with the title is the one that changes the type. -/
lemma QuickFix.exists_typeRange? {v : Text} {d : Diagnostic} {fix : QuickFix}
    (hname : d.dataText? "varName" = some n) (hvalue : d.dataText? "value" = some v)
    (hfix : fix ∈ forShouldBeReal text d)
    (htitle : fix.title = s!"Change type of '{String.ofList n}' to REAL") :
    ∃ range, typeRange? text n = some range ∧ fix.edit = ⟨range, "REAL".toList⟩ := by
  simp only [forShouldBeReal, hname, hvalue] at hfix
  rcases mem_append.mp hfix with hfix | hfix
  · split at hfix
    case h_1 range hrange =>
      obtain rfl := mem_singleton.mp hfix
      exact ⟨range, hrange, rfl⟩
    case h_2 => cases hfix
  · split at hfix
    case h_1 =>
      obtain rfl := mem_singleton.mp hfix
      have hfirst := congrArg (fun t : String => t.toList.head?) htitle
      simp only [String.toList_append, head?_append,
        show (toString "Use integer value ").toList.head? = some 'U' by decide,
        show (toString "Change type of '").toList.head? = some 'C' by decide,
        Option.some_or] at hfirst
      cases hfirst
    case h_2 => cases hfix

/-- **Changing the type mends all findings about the variable.**  The edit applies.  It replaces the
type, and nothing else, in the declaration from which the table takes the type of the variable.
Then no decimal value is held against the variable in any line. -/
theorem no_decimal_values_after_retyping {text : Text} {isSystemFile : Bool} {view : WorkspaceView}
    {options : Finding.Options} {d : Diagnostic} {n : Text} {fix : QuickFix}
    (hd : d ∈ diagnose text isSystemFile view options) (hcode : d.code? = some .shouldBeReal)
    (hname : d.dataText? "varName" = some n) (hfix : fix ∈ QuickFix.offer text [d])
    (htitle : fix.title = s!"Change type of '{String.ofList n}' to REAL") :
    ∃ k front T rest text', TypeToken text n k front T rest ∧
      fix.edit = ⟨text.span k (byteLength front) (byteLength T), "REAL".toList⟩ ∧
      text.applyEdits [fix.edit] = some text' ∧
      text'.lines = text.lines.set k (front ++ ("REAL".toList ++ rest)) ∧
      text'.breaks = text.breaks ∧
      ∀ e ∈ diagnose text' isSystemFile view options, e.code? = some .shouldBeReal →
        e.isAbout n = false := by
  obtain ⟨range, m, v, rfl, hint⟩ := exists_shouldBeReal_of_mem_diagnose hd hcode
  obtain ⟨hvar, hvalue⟩ := Diagnostic.dataText?_shouldBeReal options.locale range m v
  obtain rfl := Option.some.inj (hvar.symm.trans hname)
  rw [QuickFix.offer, flatMap_singleton, QuickFix.forDiagnostic, hcode] at hfix
  obtain ⟨place, hplace, hedit⟩ := QuickFix.exists_typeRange? hvar hvalue hfix htitle
  obtain ⟨T, htype, hT⟩ := QuickFix.exists_type_of_typeRange? hplace hint
  obtain ⟨k, front, rest, text', htoken, rfl, happly, hlines, hbreaks, hreal⟩ :=
    QuickFix.exists_retyped hplace htype hT
  rw [hedit]
  exact ⟨k, front, T, rest, text', htoken, rfl, happly, hlines, hbreaks, fun e he hcode' =>
    isAbout_eq_false_of_typeName hreal (by decide) he hcode'⟩

/-- A parameter that the body declares in other letters, behind three modifiers.  A second word of
the line reads like the type. -/
theorem no_decimal_values_after_retyping_parameter :
    let text : Text :=
      "DEF p(a:IN)\n  GLOBAL DECL CONST int A[2], b ; INT\n  A = 1.5\n  a = .5\nEND".toList
    let n : Text := ['A']
    ∃ d ∈ diagnose text false {} {}, d.range = ⟨⟨2, 6⟩, ⟨2, 9⟩⟩ ∧ d.code? = some .shouldBeReal ∧
      d.dataText? "varName" = some n ∧
    ∃ fix ∈ QuickFix.offer text [d],
      fix.title = s!"Change type of '{String.ofList n}' to REAL" ∧
    ∃ k front T rest text', TypeToken text n k front T rest ∧
      fix.edit = ⟨text.span k (byteLength front) (byteLength T), "REAL".toList⟩ ∧
      text.applyEdits [fix.edit] = some text' ∧
      text'.lines = text.lines.set k (front ++ ("REAL".toList ++ rest)) ∧
      text'.breaks = text.breaks ∧
      ∀ e ∈ diagnose text' false {} {}, e.code? = some .shouldBeReal → e.isAbout n = false := by
  intro text n
  obtain ⟨⟨range, cause⟩, hf, hrange, hcause, hname⟩ :
      ∃ f ∈ Finding.typeUses (Context.ofText text {}), f.range = ⟨⟨2, 6⟩, ⟨2, 9⟩⟩ ∧
        f.cause.code = .shouldBeReal ∧
        (Diagnostic.ofFinding .english f).dataText? "varName" = some n := by decide +kernel
  obtain ⟨m, v, rfl, -⟩ := Finding.exists_of_mem_typeUses hf hcause
  obtain ⟨hvar, hvalue⟩ := Diagnostic.dataText?_shouldBeReal .english range m v
  obtain rfl : m = ['A'] := Option.some.inj (hvar.symm.trans hname)
  have hplace : QuickFix.typeRange? text n = some ⟨⟨1, 20⟩, ⟨1, 23⟩⟩ := by decide +kernel
  let d := Diagnostic.ofFinding .english ⟨range, .shouldBeReal ['A'] v⟩
  have hcode : d.code? = some .shouldBeReal := Diagnostic.code?_ofFinding ..
  have hd : d ∈ diagnose text false {} {} :=
    mem_diagnose_of_mem_check (i := 8) rfl hf
  let fix : QuickFix := ⟨s!"Change type of '{String.ofList n}' to REAL", d,
    ⟨⟨⟨1, 20⟩, ⟨1, 23⟩⟩, "REAL".toList⟩, true⟩
  have hfix : fix ∈ QuickFix.offer text [d] := by
    rw [QuickFix.offer, flatMap_singleton, QuickFix.forDiagnostic, hcode]
    change fix ∈ QuickFix.forShouldBeReal text d
    rw [QuickFix.forShouldBeReal, show d.dataText? "varName" = some n from hvar,
      show d.dataText? "value" = some v from hvalue]
    dsimp only
    rw [hplace]
    exact mem_append_left _ mem_cons_self
  exact ⟨d, hd, hrange, hcode, hvar, fix, hfix, rfl,
    no_decimal_values_after_retyping hd hcode hvar hfix rfl⟩

end KrlWorkbench
