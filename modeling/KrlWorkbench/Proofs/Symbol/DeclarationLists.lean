import KrlWorkbench.Proofs.Code.Declarators
import KrlWorkbench.Proofs.Code.TypedLines

/-!
# Lists of variables

A line says `DECL`, a type, and a list of items; `declarationLine` prints it.  The table of symbols
of the line lists the variables from which the items were printed, in their order, with the type and
the trimmed initial values (`SymbolTable.collect_declarationLine`).

On the way the line passes every rule that comes before the one for variables.  None of them fits,
since each wants a keyword where the type stands and a type is no keyword.  The rule for variables
then has only one way to go, since of the words that it lets be left out only `DECL` stands in the
line.
-/

namespace KrlWorkbench

open List Text

variable {T lead s s' list : Text}

/-! ## The type -/

lemma isTypeWord_of_not_keyword (hT : isIdentifier T = true)
    (hkeyword : Keyword.isKeyword T = false) : IsTypeWord T := by
  have hnot : ∀ k ∈ modifiers ++ LineRule.mainKeywords, sameWord k.toList T = false := by
    intro k hk
    have hks : ∀ k ∈ modifiers ++ LineRule.mainKeywords, k.toList ∈ Keyword.names ∧
        (∀ c ∈ k.toList, isAscii c = true) ∧ upper k.toList = k.toList := by decide
    obtain ⟨hname, hascii, hupper⟩ := hks k hk
    have hplain : ∀ c ∈ T, isAscii c = true := fun c hc =>
      isAscii_of_isNameChar (isNameChar_of_isIdentifier hT c hc)
    rw [Bool.eq_false_iff]
    intro hsame
    rw [Keyword.isKeyword, ← upper_eq_of_sameWord hascii hplain hsame, hupper] at hkeyword
    simp [hname] at hkeyword
  refine ⟨hT, any_eq_false.mpr fun k hk => ?_, fun k hk => hnot k (mem_append_right _ hk)⟩
  rw [hnot k (mem_append_left _ hk)]
  exact Bool.false_ne_true

/-- A line that declares variables of a type. -/
def declarationLine (T : Text) (gap gap' : Spaces) (entries : List (Declarator × Spacing)) : Text :=
  "DECL".toList ++ (gap.text ++ (T ++ (gap'.text ++
    [','].intercalate (entries.map fun e => e.1.print e.2))))

/-! ## The rule for variables -/

open LineRule Pattern

lemma TypedList.notTypes_contains_eq_false (hkeyword : Keyword.isKeyword T = false) :
    notTypes.contains (upper T) = false := by
  have hnames : ∀ k ∈ notTypes, k ∈ Keyword.names := by decide
  rw [Bool.eq_false_iff]
  intro hmem
  rw [Keyword.isKeyword] at hkeyword
  simp [hnames _ (contains_iff_mem.mp hmem)] at hkeyword

/-- **The rule finds type and list.** -/
lemma TypedList.ofCode?_decl (hlead : IsBlanks lead)
    (hT : isIdentifier T = true) (hkeyword : Keyword.isKeyword T = false) (hs : IsBlanks s)
    (hne : s ≠ []) (hs' : IsBlanks s') (hne' : s' ≠ []) (hlist : IsRun isSolid isInLine list)
    (types : List Text) :
    ofCode? types (lead ++ ("DECL".toList ++ (s ++ (T ++ (s' ++ list))))) =
      some ⟨false, true, T, list, byteLength (lead ++ ("DECL".toList ++ (s ++ (T ++ s'))))⟩ := by
  have hmodifiers : Modifiers ("DECL".toList ++ (s ++ [])) := .cons (by decide) hs hne .nil
  have hfront : ∀ {T rest : Text}, IsWord T → isModifier T = false → startsWord rest = false →
      Prefers (maybes frontWords) lead ("DECL".toList ++ (s ++ [])) (T ++ rest)
        [(3, ⟨byteLength lead, "DECL".toList⟩)] := by
    intro T rest hword hnot hrest
    simp only [isModifier, any_eq_false, Bool.not_eq_true] at hnot
    have hfirst := hword.takeWhile_append hrest
    have hbehind x : Prefers (maybes [(4, "GLOBAL"), (5, "CONST")]) x [] (T ++ rest) [] :=
      (Prefers.maybe_absent 4 rfl (by rw [hfirst, hnot _ (by decide)]) _).seq_absent
        ((Prefers.maybe_absent 5 rfl (by rw [hfirst, hnot _ (by decide)]) _).seq_absent
          (.empty _ _))
    have hpresent x := (Prefers.maybe_present 3 (sameWord_refl "DECL".toList) hs hne
      (hword.any_head?_append rest) x).seq_absent (hbehind _)
    have hwhole : Prefers (maybes frontWords) lead _ _ _ :=
      (Prefers.maybe_absent 1 rfl rfl _).seq ((Prefers.maybe_absent 2 rfl rfl _).seq (hpresent _))
    simpa using hwhole
  have hfind := find?_declaration hlead hmodifiers hfront (isTypeWord_of_not_keyword hT hkeyword)
    hs' hne' hlist
  simp only [append_assoc, append_nil] at hfind
  rw [ofCode?, hfind]
  change (if notTypes.contains (upper T) then none else some _) = _
  rw [notTypes_contains_eq_false hkeyword]
  rfl

/-! ## Reading the line -/

/-- What the table says about a variable, apart from its place. -/
def Symbol.content (s : Symbol) : Text × SymbolKind × Option Text × Option Text :=
  (s.name, s.kind, s.typeName, s.value)

lemma Symbol.map_key_eq (symbols : List Symbol) :
    symbols.map key = (symbols.map content).map fun c => upper c.1 := by
  rw [map_map]
  rfl

lemma Symbol.map_content_ofTypedList (text : Text) (line : Nat) (parts : TypedList) :
    (ofTypedList text line parts).map content =
      (ListItem.pieces 0 false parts.list).filterMap fun p =>
        if isIdentifier (itemName p) then
          some (itemName p, .var, some parts.typeName, ListItem.value ⟨0, p⟩) else none := by
  rw [ofTypedList, map_filterMap, ← ListItem.map_text_split, filterMap_map]
  refine filterMap_congr fun item _ => ?_
  change Option.map content (if isIdentifier (itemName item.text) then _ else none) =
    if isIdentifier (itemName item.text) then _ else none
  split <;> rfl

/-- Where no other rule has a say the rule for variables does. -/
lemma Symbol.ofLine_eq_ofTypedList {types : List Text} {code : Text} {parts : TypedList}
    (hnone : ∀ rule ∈ keywordRules, rule.find? code = none)
    (hparts : TypedList.ofCode? types code = some parts) (text : Text) (line : Nat) :
    Routine.ofHeader? text code line = none ∧ typeDefinition.find? code = none ∧
      ofLine text types line code = ofTypedList text line parts := by
  have hheader : Routine.ofHeader? text code line = none := by
    rw [Routine.ofHeader?, hnone functionHeader (by decide), hnone routineHeader (by decide)]
    rfl
  have hdefinition := hnone typeDefinition (by decide)
  refine ⟨hheader, hdefinition, ?_⟩
  rw [ofLine, hheader, hdefinition, hnone signal (by decide), hparts]

/-- A line that says `DECL` and a type heads nothing and defines no type, and it declares the
variables of its list. -/
lemma Symbol.ofLine_decl (hlead : IsBlanks lead)
    (hT : isIdentifier T = true) (hkeyword : Keyword.isKeyword T = false) (hs : IsBlanks s)
    (hne : s ≠ []) (hs' : IsBlanks s') (hne' : s' ≠ []) (hlist : IsRun isSolid isInLine list)
    (text : Text) (types : List Text) (line : Nat) :
    let code := lead ++ ("DECL".toList ++ (s ++ (T ++ (s' ++ list))))
    Routine.ofHeader? text code line = none ∧ typeDefinition.find? code = none ∧
      ofLine text types line code = ofTypedList text line
        ⟨false, true, T, list, byteLength (lead ++ ("DECL".toList ++ (s ++ (T ++ s'))))⟩ := by
  intro code
  have hline : TypedLine code lead ("DECL".toList ++ (s ++ [])) T s' list :=
    ⟨by simp [code], hlead, .absent (.absent (.present (sameWord_refl _) hs hne
      (.absent (.absent .nil)))), hs', hne', hlist⟩
  exact ofLine_eq_ofTypedList
    (fun _ => hline.find?_eq_none (isTypeWord_of_not_keyword hT hkeyword))
    (TypedList.ofCode?_decl hlead hT hkeyword hs hne hs' hne' hlist types) text line

/-- Variables with different names are all kept. -/
lemma Symbol.foldl_add_of_nodup {items found : List Symbol}
    (h : ((found ++ items).map key).Nodup) :
    items.foldl (fun found s => add s found) found = found ++ items := by
  have hadd : ∀ {s : Symbol} {found : List Symbol}, s.key ∉ found.map key →
      add s found = found ++ [s] := by
    intro s found hnew
    induction found with
    | nil => rfl
    | cons old found ih =>
      rw [map_cons, mem_cons, not_or] at hnew
      rw [add, if_neg (by simpa using Ne.symm hnew.1), ih hnew.2, cons_append]
  induction items generalizing found with
  | nil => simp
  | cons s items ih =>
    have hnew : s.key ∉ found.map key := by
      rw [map_append, map_cons] at h
      exact fun hmem => disjoint_of_nodup_append h hmem mem_cons_self
    rw [foldl_cons, hadd hnew, ih (by simpa using h), append_assoc]
    rfl

/-! ## Printed lists -/

/-- The spacing of an item with nothing in front of its name. -/
def Spacing.flush (s : Spacing) : Spacing :=
  { s with beforeName := ⟨[], by simp⟩ }

lemma Declarator.print_eq_append (d : Declarator) (s : Spacing) :
    d.print s = s.beforeName.text ++ d.print s.flush :=
  rfl

lemma intercalate_append_cons (sep a b : Text) (ps : List Text) :
    sep.intercalate ((a ++ b) :: ps) = a ++ sep.intercalate (b :: ps) := by
  cases ps with
  | nil => simp
  | cons p ps => simp [intercalate_cons_cons]

/-- The list of a line that is printed, behind all blanks in front of it. -/
lemma declarationLine_cons (T : Text) (gap gap' : Spaces) (e : Declarator × Spacing)
    (es : List (Declarator × Spacing)) :
    declarationLine T gap gap' (e :: es) = "DECL".toList ++ (gap.text ++ (T ++
      (gap'.text ++ e.2.beforeName.text ++
        [','].intercalate (((e.1, e.2.flush) :: es).map fun e => e.1.print e.2)))) := by
  rw [declarationLine, map_cons, Declarator.print_eq_append, intercalate_append_cons,
    append_assoc gap'.text, map_cons]

lemma isCode_intercalate_print (entries : List (Declarator × Spacing)) :
    IsCode ([','].intercalate (entries.map fun e => e.1.print e.2)) := by
  refine .intercalate (isCode_of_forall (by decide)) fun p hp => ?_
  obtain ⟨e, -, rfl⟩ := mem_map.mp hp
  exact e.1.isCode_print e.2

lemma isRun_intercalate_print (d : Declarator) (s : Spacing) (es : List (Declarator × Spacing)) :
    IsRun isSolid isInLine
      ([','].intercalate (((d, s.flush) :: es).map fun e => e.1.print e.2)) := by
  have hcode := isCode_intercalate_print ((d, s.flush) :: es)
  have hprint : d.print s.flush = d.name ++ (s.afterName.text ++
      (d.indexText ++ (s.afterIndex.text ++ d.initialText s.flush))) := rfl
  rw [map_cons, hprint, intercalate_append_cons] at hcode ⊢
  obtain ⟨c, w, hname⟩ := exists_cons_of_ne_nil d.isWord_name.ne_nil
  have hword := d.isWord_name.chars c (by simp [hname])
  rw [hname, cons_append] at hcode ⊢
  refine ⟨c, _, rfl, isSolid_of_isWordChar hword, fun x hx => ?_⟩
  rw [isInLine, bne_iff_ne]
  exact (hcode.noBreak x (mem_cons_of_mem _ hx)).1

lemma filterMap_print (T : Text) (entries : List (Declarator × Spacing)) :
    (entries.map fun e => e.1.print e.2).filterMap (fun p =>
        if isIdentifier (itemName p) then
          some (itemName p, SymbolKind.var, some T, ListItem.value ⟨0, p⟩)
        else none) = entries.map fun e => (e.1.name, .var, some T, e.1.initial.map trim) := by
  rw [filterMap_map, ← filterMap_eq_map]
  refine filterMap_congr fun e _ => ?_
  rw [Function.comp_apply, e.1.itemName_print, e.1.value_print, if_pos e.1.isIdentifier_name]
  rfl

lemma Symbol.map_content_ofLine (hT : isIdentifier T = true)
    (hkeyword : Keyword.isKeyword T = false) {gap gap' : Spaces} (hgap : gap.text ≠ [])
    (hgap' : gap'.text ≠ []) (e : Declarator × Spacing) (es : List (Declarator × Spacing))
    (text : Text) (types : List Text) (line : Nat) :
    (ofLine text types line (declarationLine T gap gap' (e :: es))).map content =
      (e :: es).map fun e => (e.1.name, .var, some T, e.1.initial.map trim) := by
  have hwhole : ∀ p ∈ ((e.1, e.2.flush) :: es).map (fun e => e.1.print e.2),
      ListItem.IsWhole p := by
    intro p hp
    obtain ⟨e, -, rfl⟩ := mem_map.mp hp
    exact e.1.isWhole_print e.2
  have hblanks : IsBlanks (gap'.text ++ e.2.beforeName.text) := fun c hc =>
    (mem_append.mp hc).elim (gap'.isBlanks c) (e.2.beforeName.isBlanks c)
  have hread := (ofLine_decl isBlanks_nil hT hkeyword gap.isBlanks hgap hblanks (by simp [hgap'])
    (isRun_intercalate_print e.1 e.2 es) text types line).2.2
  rw [nil_append] at hread
  rw [declarationLine_cons, hread, map_content_ofTypedList,
    ListItem.pieces_intercalate (ListItem.items_of_isWhole (by simp) hwhole), filterMap_print]
  rfl

namespace SymbolTable

lemma symbols_collect_of_isCode {line : Text} (h : IsCode line) (hsolid : allBlank line = false) :
    (collect line).symbols =
      (Symbol.ofLine line (TypeDefinition.keysOf line.lines) 0 line).foldl
        (fun found s => Symbol.add s found) [] := by
  have hlines : codeLines line = [(0, line)] := by
    rw [codeLines, lines_of_noBreak h.noBreak]
    simp [h.codePart_eq, hsolid]
  simp [collect, hlines]

/-- **Lists of variables are read as they are printed.**  A line that says `DECL`, a type that is no
keyword, and a list of variables with different names declares these variables, in their order, with
the type and the trimmed initial values. -/
theorem collect_declarationLine (T : Text) (gap gap' : Spaces)
    (entries : List (Declarator × Spacing)) (hT : isIdentifier T = true)
    (hkeyword : Keyword.isKeyword T = false) (hgap : gap.text ≠ []) (hgap' : gap'.text ≠ [])
    (hne : entries ≠ []) (hnodup : (entries.map fun e => upper e.1.name).Nodup) :
    ((collect (declarationLine T gap gap' entries)).symbols.map
        fun s => (s.name, s.kind, s.typeName, s.value)) =
      entries.map fun e => (e.1.name, SymbolKind.var, some T, e.1.initial.map trim) := by
  obtain ⟨e, es, rfl⟩ := exists_cons_of_ne_nil hne
  have hcode : IsCode (declarationLine T gap gap' (e :: es)) :=
    (isCode_of_forall (by decide)).append (gap.isCode.append
      ((isWord_of_isIdentifier hT).isCode.append
        (gap'.isCode.append (isCode_intercalate_print _))))
  have hcontent := Symbol.map_content_ofLine hT hkeyword hgap hgap' e es
  have hsymbols := symbols_collect_of_isCode hcode rfl
  rw [Symbol.foldl_add_of_nodup, nil_append] at hsymbols
  · rw [hsymbols]
    exact hcontent ..
  · rw [nil_append, Symbol.map_key_eq, hcontent, map_map]
    exact hnodup

/-- A list with commas, equals signs and brackets where they separate nothing. -/
theorem collect_quoted_declarators :
    ((collect "DECL T\ta [1,(\"]=\")]\t= \x7bX 1, S \";,\"\x7d , b ,C=\"(=\"".toList).symbols.map
        fun s => (s.name, s.kind, s.typeName, s.value)) =
      [(['a'], .var, some ['T'], some "\x7bX 1, S \";,\"\x7d".toList),
        (['b'], .var, some ['T'], none), (['C'], .var, some ['T'], some "\"(=\"".toList)] := by
  have hnone : ∀ c ∈ ([] : Text), c = ' ' ∨ c = '\t' := by simp
  have hspace : ∀ c ∈ [' '], c = ' ' ∨ c = '\t' := by simp
  have htab : ∀ c ∈ ['\t'], c = ' ' ∨ c = '\t' := by simp
  have hread := collect_declarationLine ['T'] ⟨[' '], hspace⟩ ⟨['\t'], htab⟩
    [(⟨['a'], some "1,(\"]=\")".toList, some "\x7bX 1, S \";,\"\x7d".toList, by decide, by decide,
        by decide, by decide, by decide⟩,
      ⟨⟨[], hnone⟩, ⟨[' '], hspace⟩, ⟨['\t'], htab⟩, ⟨[' '], hspace⟩, ⟨[' '], hspace⟩⟩),
     (⟨['b'], none, none, by decide, by decide, by decide, by decide, by decide⟩,
      ⟨⟨[' '], hspace⟩, ⟨[' '], hspace⟩, ⟨[], hnone⟩, ⟨[], hnone⟩, ⟨[], hnone⟩⟩),
     (⟨['C'], none, some "\"(=\"".toList, by decide, by decide, by decide, by decide, by decide⟩,
      ⟨⟨[], hnone⟩, ⟨[], hnone⟩, ⟨[], hnone⟩, ⟨[], hnone⟩, ⟨[], hnone⟩⟩)]
    (by decide) (by decide) (by simp) (by simp) (by simp)
    (show [['A'], ['B'], ['C']].Nodup by decide)
  exact hread

end SymbolTable
end KrlWorkbench
