import KrlWorkbench.Proofs.Renaming.Rules

/-!
# The names that a renamed line declares

A line that declares a name declares, when it is renamed, the renamed name, and it declares no name
that equals the old one.  `Carried` says this of two lists of names; it is shown for each way to
declare, and for a line in `carried_ofLine`.

There is one direction in which more may be declared than before.  Without `DECL` a declaration
needs a known type, and two spellings of the old name that are different keys become one key.  So a
line may count as a declaration only after the renaming, and a list of names is followed forwards
only if its type is known.
-/

namespace KrlWorkbench

open List LineRule KrlWorkbench.Symbol Text

variable {u u' : Text} {rule : LineRule} {types' : List Text} {m m' : Match} {i : Nat}
  {f : Text → Text}

/-! ## Reserved words -/

lemma isWord_of_mem_reserved {key : Text} (h : key ∈ Keyword.names ++ BuiltinType.names) :
    IsWord key := by
  have hall : ∀ key ∈ Keyword.names ++ BuiltinType.names,
      key ≠ [] ∧ ∀ c ∈ key, isNameChar c = true := by
    decide +kernel
  obtain ⟨hne, hchars⟩ := hall key h
  exact isWord_of_sameWord hne hchars (sameWord_refl key)

/-- A text spells a reserved word if the renamed text does. -/
lemma Renamed.contains_upper {x y : Text} (h : Renamed x y u u') (hnames : ProperNames x y)
    {keys : List Text} (hkeys : ∀ key ∈ keys, key ∈ Keyword.names ++ BuiltinType.names) :
    keys.contains (upper u') = keys.contains (upper u) := by
  rw [Bool.eq_iff_iff, contains_iff_mem, contains_iff_mem]
  constructor
  · intro hmem
    have hreserved := hkeys _ hmem
    have hword := isWord_upper.mp (isWord_of_mem_reserved hreserved)
    obtain ⟨-, rfl⟩ := h.eq_rename_of_new hword
    have hfree := (hnames.reserved _ hreserved).2
    rw [sameWord_upper_left] at hfree
    rw [rename] at hmem hfree
    split at hfree
    case isTrue => simp [sameWord_refl] at hfree
    case isFalse hsame => rwa [if_neg hsame] at hmem
  · intro hmem
    have hreserved := hkeys _ hmem
    have hword := isWord_upper.mp (isWord_of_mem_reserved hreserved)
    have hfree := (hnames.reserved _ hreserved).1
    rw [sameWord_upper_left] at hfree
    rw [h.eq_rename hword, rename, sameWord_comm, hfree]
    exact hmem

/-! ## Lists of names -/

/-- The new names hold the renamed old ones, and none of them equals `x`. -/
structure Carried (x y : Text) (names names' : List Text) : Prop where
  forth : ∀ n ∈ names, rename x y n ∈ names'
  back : ∀ n ∈ names', sameWord x n = false

lemma carried_nil (x y : Text) : Carried x y [] [] :=
  ⟨by simp, by simp⟩

lemma isIdentifier_rename {x y n : Text} (hnames : ProperNames x y) (hn : isIdentifier n = true) :
    isIdentifier (rename x y n) = true := by
  rw [rename]
  split
  case isTrue => exact hnames.new
  case isFalse => exact hn

lemma carried_filter {x y : Text} (hnames : ProperNames x y) (hxy : sameWord x y = false)
    {texts texts' : List Text} (h : List.Forall₂ (Renamed x y) texts texts') :
    Carried x y (texts.filter isIdentifier) (texts'.filter isIdentifier) := by
  induction h with
  | nil => exact carried_nil x y
  | @cons u u' texts texts' hu _ ih =>
    constructor
    · intro n hn
      obtain ⟨hmem, hid⟩ := mem_filter.mp hn
      rcases mem_cons.mp hmem with rfl | hmem
      · rw [hu.eq_rename (isWord_of_isIdentifier hid)]
        exact mem_filter.mpr ⟨mem_cons_self, isIdentifier_rename hnames hid⟩
      · have hrest := ih.forth n (mem_filter.mpr ⟨hmem, hid⟩)
        exact ((sublist_cons_self u' texts').filter _).subset hrest
    · intro n hn
      obtain ⟨hmem, hid⟩ := mem_filter.mp hn
      rcases mem_cons.mp hmem with rfl | hmem
      · rw [(hu.eq_rename_of_new (isWord_of_isIdentifier hid)).2]
        exact sameWord_rename hxy u
      · exact ih.back n (mem_filter.mpr ⟨hmem, hid⟩)

lemma carried_singleton {x y : Text} (hxy : sameWord x y = false) (h : Renamed x y u u')
    (hu : IsWord u) : Carried x y [u] [u'] := by
  rw [h.eq_rename hu]
  constructor
  · simp
  · intro n hn
    rw [mem_singleton.mp hn]
    exact sameWord_rename hxy u

/-- The names in a list, where `f` reads the name of an item. -/
def namesIn (f : Text → Text) (list : Text) : List Text :=
  ((ListItem.pieces 0 false list).map f).filter isIdentifier

lemma carried_namesIn {x y : Text} (hnames : ProperNames x y) (hxy : sameWord x y = false)
    (hf : ∀ {u u'}, Renamed x y u u' → Renamed x y (f u) (f u'))
    {list list' : Text} (h : Renamed x y list list') :
    Carried x y (namesIn f list) (namesIn f list') := by
  refine carried_filter hnames hxy ?_
  rw [forall₂_map_left_iff, forall₂_map_right_iff]
  exact (h.pieces (isWord_of_isIdentifier hnames.new)).imp fun _ _ => hf

/-! ## Reading lists -/

/-- Reading the items of a list, each for itself, under the condition that it names something. -/
lemma map_name_filterMap {α : Type} {nameOf : α → Text} {read : ListItem → Option α}
    (hread : ∀ item, (read item).map nameOf =
      if isIdentifier (f item.text) then some (f item.text) else none) (list : Text) :
    ((ListItem.split list).filterMap read).map nameOf = namesIn f list := by
  rw [namesIn, ← ListItem.map_text_split, map_map, map_filterMap,
    ← filterMap_eq_filter, filterMap_map]
  refine filterMap_congr fun item _ => ?_
  rw [hread, Function.comp_apply, Option.guard]
  rfl

/-- The name of a parameter. -/
def paramName (text : Text) : Text :=
  ListItem.stripIndex (trim (beforeColon (trim text)))

/-- The name of a variable in a list. -/
def itemName (text : Text) : Text :=
  ListItem.stripIndex (trim (ListItem.splitInitial text).1)

lemma Param.map_name_ofText? (text : Text) :
    (Param.ofText? text).map (·.name) =
      if isIdentifier (paramName text) then some (paramName text) else none := by
  rw [Param.ofText?, paramName, beforeColon]
  cases splitLastColon (trim text) with
  | none =>
    simp only [Option.map_none, Option.getD_none]
    split <;> rfl
  | some parts =>
    simp only [Option.map_some, Option.getD_some]
    split <;> rfl

lemma Param.map_name_ofList (list : Text) :
    (Param.ofList list).map (·.name) = namesIn paramName list :=
  map_name_filterMap (fun item => Param.map_name_ofText? item.text) list

lemma Symbol.map_name_ofParams (r : Routine) :
    (ofParams r).map (·.name) = r.params.map (·.name) := by
  rw [ofParams, map_map]
  rfl

lemma Symbol.map_name_ofTypedList (text : Text) (line : Nat) (parts : TypedList) :
    (ofTypedList text line parts).map (·.name) = namesIn itemName parts.list := by
  refine map_name_filterMap (fun item => ?_) parts.list
  change Option.map _ (if isIdentifier (itemName item.text) then _ else none) = _
  split <;> rfl

lemma Symbol.map_name_ofSignal (text : Text) (line : Nat) (found : Match) :
    (ofSignal text line found).map (·.name) =
      ((found.group? 2).map (·.text)).toList.filter isIdentifier := by
  rw [ofSignal]
  cases found.group? 2 with
  | none => rfl
  | some name =>
    cases hid : isIdentifier name.text <;> simp [hid]

lemma TypeDefinition.isEnumeration_eq_contains (found : Match) :
    isEnumeration found = ["ENUM".toList].contains (upper (found.text 3)) := by
  have hupper : upper "ENUM".toList = "ENUM".toList := by decide
  rw [isEnumeration, sameName, hupper, contains_cons, contains_nil, Bool.or_false]

lemma LineRule.RenamedMatch.isEnumeration_eq {x y : Text}
    (hm : RenamedMatch x y .typeDefinition m m') (hnames : ProperNames x y) :
    TypeDefinition.isEnumeration m' = TypeDefinition.isEnumeration m := by
  rw [TypeDefinition.isEnumeration_eq_contains, TypeDefinition.isEnumeration_eq_contains]
  exact (hm.text (by decide)).contains_upper hnames (by decide)

/-- The names of a type definition: the values of an enumeration, or the structure. -/
lemma Symbol.map_name_ofTypeDefinition (text : Text) (line : Nat) (found : Match) :
    (ofTypeDefinition text line found).map (·.name) =
      match found.group? 4 with
      | none => []
      | some name =>
        if TypeDefinition.isEnumeration found then namesIn trim (found.text 5)
        else [name.text] := by
  rw [ofTypeDefinition]
  cases found.group? 4 with
  | none => rfl
  | some name =>
    simp only
    split
    case isTrue =>
      rw [filterMap_map]
      refine map_name_filterMap (fun item => ?_) (found.text 5)
      rw [Function.comp_apply]
      split <;> rfl
    case isFalse => rfl

/-! ## Words in groups -/

lemma isWordChar_of_anyCaseInitial {c : Char} (h : anyCaseInitial c = true) :
    isWordChar c = true := by
  rw [anyCaseInitial, Bool.or_eq_true, beq_iff_eq] at h
  rcases h with h | rfl
  · have hname : isNameChar (fold c) = true := by simp [isNameChar, h]
    have hfold := isAscii_of_isNameChar hname
    cases hc : isAscii c with
    | true => rw [isWordChar_of_isAscii hc, ← isNameChar_lowerAscii hc, ← fold_of_isAscii hc, hname]
    | false =>
      rcases eq_of_isAscii_fold hc hfold with rfl | rfl
      · exact isWordChar_longS
      · exact isWordChar_kelvin
  · decide

lemma isWord_of_fits_name {here : Cursor} {v : Text} {found : Groups}
    (h : Pattern.Fits name here u v found) : IsWord u := by
  obtain ⟨lead, rest, _, _, rfl, -, hlead, hrest⟩ := h.exists_of_append
  cases hlead with
  | @one _ _ c hc _ =>
    have hchars := hrest.forall_of_many.1
    exact ⟨by simp, forall_mem_cons.mpr ⟨isWordChar_of_anyCaseInitial hc, hchars⟩⟩

/-- A group that is a name of a rule holds a word. -/
lemma LineRule.isWord_of_group? {code : Text}
    (hbodies : rule.pattern.bodies i = [name]) (hm : rule.find? code = some m) {c : Capture}
    (hc : m.group? i = some c) : IsWord c.text := by
  obtain ⟨_, _, _, -, -, hfits⟩ := Pattern.matches_of_find? hm
  obtain ⟨body, hbody, _, _, _, hfits⟩ := hfits.exists_body (Match.mem_groups_of_group? hc)
  rw [hbodies, mem_singleton] at hbody
  rw [hbody] at hfits
  exact isWord_of_fits_name hfits

/-! ## Lines -/

/-- A routine and the renamed one. -/
structure RenamedRoutine (x y : Text) (r r' : Routine) : Prop where
  name : r'.name = rename x y r.name
  params : Carried x y (r.params.map (·.name)) (r'.params.map (·.name))

/-- What a header makes of its groups: `i` is the name and `j` the parameters. -/
lemma ofParts_related {x y code : Text} (hnames : ProperNames x y) (hxy : sameWord x y = false)
    {j : Nat} (hbodies : rule.pattern.bodies i = [LineRule.name])
    (hi : rule.pattern.groupDoubt i .no = .no) (hj : rule.pattern.groupDoubt j .no = .no)
    (hfound : rule.find? code = some m) (hm : RenamedMatch x y rule m m')
    (text text' : Text) (line line' : Nat) (isGlobal isGlobal' : Bool)
    (returnType returnType' : Option Text) :
    Option.Rel (RenamedRoutine x y)
      ((m.group? i).map fun name =>
        Routine.ofParts text line isGlobal returnType name (m.text j))
      ((m'.group? i).map fun name =>
        Routine.ofParts text' line' isGlobal' returnType' name (m'.text j)) := by
  have hy := isWord_of_isIdentifier hnames.new
  have hparam : ∀ {u u'}, Renamed x y u u' → Renamed x y (paramName u) (paramName u') :=
    fun h => (((h.trim hy).beforeColon hy).trim hy).stripIndex hy
  rcases cases_of_rel (hm.group i hi) with ⟨hc, hc'⟩ | ⟨c, c', hc, hc', hname⟩ <;> rw [hc, hc']
  · exact .none
  · refine .some ⟨hname.eq_rename (isWord_of_group? hbodies hfound hc), ?_⟩
    change Carried x y ((Param.ofList (m.text j)).map (·.name))
      ((Param.ofList (m'.text j)).map (·.name))
    rw [Param.map_name_ofList, Param.map_name_ofList]
    exact carried_namesIn hnames hxy hparam (hm.text hj)

section Line

variable {x y code code' : Text} (hnames : ProperNames x y) (hxy : sameWord x y = false)
  (h : Renamed x y code code') (hline : '\n' ∉ code)

include hnames hxy h hline

lemma ofHeader?_related (text text' : Text) (line line' : Nat) :
    Option.Rel (RenamedRoutine x y) (Routine.ofHeader? text code line)
      (Routine.ofHeader? text' code' line') := by
  rw [Routine.ofHeader?, Routine.ofHeader?]
  rcases cases_of_rel (find?_renamed hnames h hline .functionHeader (by decide)) with
    ⟨hfound, hfound'⟩ | ⟨m, m', hfound, hfound', hm⟩ <;> rw [hfound, hfound']
  · rcases cases_of_rel (find?_renamed hnames h hline .routineHeader (by decide)) with
      ⟨hfound, hfound'⟩ | ⟨m, m', hfound, hfound', hm⟩ <;> rw [hfound, hfound']
    · exact .none
    · have hparts := ofParts_related (i := 2) (j := 3) hnames hxy rfl (by decide) (by decide)
        hfound hm text text' line line' (m.has 1) (m'.has 1) none none
      rw [Option.map_eq_bind, Option.map_eq_bind] at hparts
      exact hparts
  · exact ofParts_related hnames hxy rfl (by decide) (by decide) hfound hm ..

omit h hline in
lemma carried_ofTypeDefinition (hfound : typeDefinition.find? code = some m)
    (hm : RenamedMatch x y .typeDefinition m m') (text text' : Text) (line line' : Nat) :
    Carried x y ((ofTypeDefinition text line m).map (·.name))
      ((ofTypeDefinition text' line' m').map (·.name)) := by
  have hy := isWord_of_isIdentifier hnames.new
  rw [map_name_ofTypeDefinition, map_name_ofTypeDefinition]
  rcases cases_of_rel (hm.group 4 (by decide)) with
    ⟨hc, hc'⟩ | ⟨c, c', hc, hc', hname⟩ <;> rw [hc, hc']
  · exact carried_nil x y
  · simp only [hm.isEnumeration_eq hnames]
    split
    case isTrue => exact carried_namesIn hnames hxy (fun h => h.trim hy) (hm.text (by decide))
    case isFalse =>
      exact carried_singleton hxy hname (isWord_of_group? rfl hfound hc)

omit h hline in
lemma carried_ofSignal (hm : RenamedMatch x y .signal m m') (text text' : Text) (line line' : Nat) :
    Carried x y ((ofSignal text line m).map (·.name)) ((ofSignal text' line' m').map (·.name)) := by
  have hgroup := hm.group 2 (by decide)
  rw [map_name_ofSignal, map_name_ofSignal]
  refine carried_filter hnames hxy ?_
  generalize m.group? 2 = c at hgroup
  generalize m'.group? 2 = c' at hgroup
  cases hgroup with
  | some h => exact .cons h .nil
  | none => exact .nil

omit hxy in
/-- A typed list of the old line is one of the new line, if its type is known there too. -/
lemma exists_typedList {types : List Text}
    (htypes : ∀ {u u'}, Renamed x y u u' → upper u ∈ types → upper u' ∈ types')
    {parts : TypedList} (hparts : TypedList.ofCode? types code = some parts) :
    ∃ parts', TypedList.ofCode? types' code' = some parts' ∧
      Renamed x y parts.list parts'.list := by
  have hy := isWord_of_isIdentifier hnames.new
  have hfind := find?_renamed hnames h hline .declaration (by decide)
  simp only [TypedList.ofCode?, Option.bind_eq_bind, Option.bind_eq_some_iff] at hparts
  obtain ⟨m, hfound, list, hlist, hparts⟩ := hparts
  obtain ⟨m', hfound', hm⟩ := exists_of_rel_some hfind hfound
  obtain ⟨list', hlist', hrenamed⟩ := exists_of_rel_some (hm.group 7 (by decide)) hlist
  have htype := hm.text (i := 6) (by decide)
  -- The tests on the type give the same answers: no reserved word is renamed.
  have hnot : TypedList.notTypes.contains (upper (m'.text 6)) =
      TypedList.notTypes.contains (upper (m.text 6)) := htype.contains_upper hnames (by decide)
  have hbuiltin : BuiltinType.isBuiltinType (m'.text 6) = BuiltinType.isBuiltinType (m.text 6) :=
    htype.contains_upper hnames fun _ hkey => mem_append_right _ hkey
  have hequals : ((trimStart list'.text).head? == some '=') =
      ((trimStart list.text).head? == some '=') := by
    rw [Bool.eq_iff_iff, beq_iff_eq, beq_iff_eq]
    exact (hrenamed.trimStart hy).head?_eq_iff hy (by decide)
  have hknown : types.contains (upper (m.text 6)) = true →
      types'.contains (upper (m'.text 6)) = true := by
    rw [contains_iff_mem, contains_iff_mem]
    exact htypes htype
  split_ifs at hparts with hreserved hunknown hassigned
  obtain rfl := Option.some.inj hparts
  rw [← hnot] at hreserved
  have hunknown' : ¬ (!m'.has 3 && !BuiltinType.isBuiltinType (m'.text 6) &&
      !types'.contains (upper (m'.text 6))) = true := by
    rw [hm.has] at hunknown
    rw [hbuiltin]
    intro hcontra
    simp only [Bool.and_eq_true, Bool.not_eq_true'] at hcontra hunknown
    refine hunknown ⟨hcontra.1, ?_⟩
    by_contra hmem
    rw [Bool.not_eq_false] at hmem
    rw [hknown hmem] at hcontra
    simp at hcontra
  rw [hm.has, hm.has, hm.has, hm.has, hm.has, ← hequals] at hassigned
  refine ⟨⟨m'.has 1 || m'.has 4, m'.has 3, m'.text 6, list'.text, list'.start⟩, ?_, hrenamed⟩
  simp only [TypedList.ofCode?, hfound', hlist', Option.bind_eq_bind, Option.bind_some]
  rw [if_neg hreserved, if_neg hunknown', if_neg hassigned]

omit hxy in
/-- A typed list of the new line is a renamed list, whether or not its type was known. -/
lemma exists_list_of_typedList {parts' : TypedList}
    (hparts : TypedList.ofCode? types' code' = some parts') :
    ∃ list, Renamed x y list parts'.list := by
  have hfind := find?_renamed hnames h hline .declaration (by decide)
  simp only [TypedList.ofCode?, Option.bind_eq_bind, Option.bind_eq_some_iff] at hparts
  obtain ⟨m', hfound', list', hlist', hparts⟩ := hparts
  obtain ⟨m, -, hm⟩ := exists_of_rel_some_right hfind hfound'
  obtain ⟨list, -, hrenamed⟩ := exists_of_rel_some_right (hm.group 7 (by decide)) hlist'
  split_ifs at hparts
  obtain rfl := Option.some.inj hparts
  exact ⟨list.text, hrenamed⟩

/-- **A renamed line declares the renamed names.** -/
theorem carried_ofLine {types types' : List Text}
    (htypes : ∀ {u u'}, Renamed x y u u' → upper u ∈ types → upper u' ∈ types')
    (text text' : Text) (line line' : Nat) :
    Carried x y ((ofLine text types line code).map (·.name))
      ((ofLine text' types' line' code').map (·.name)) := by
  have hy := isWord_of_isIdentifier hnames.new
  have hitem : ∀ {u u'}, Renamed x y u u' → Renamed x y (itemName u) (itemName u') :=
    fun h => ((h.splitInitial hy).trim hy).stripIndex hy
  rw [ofLine, ofLine]
  rcases cases_of_rel (ofHeader?_related hnames hxy h hline text text' line line') with
    ⟨hr, hr'⟩ | ⟨r, r', hr, hr', hroutine⟩ <;> rw [hr, hr']
  case inr =>
    simp only [map_name_ofParams]
    exact hroutine.params
  rcases cases_of_rel (find?_renamed hnames h hline .typeDefinition (by decide)) with
    ⟨hd, hd'⟩ | ⟨m, m', hd, hd', hm⟩ <;> rw [hd, hd']
  case inr => exact carried_ofTypeDefinition hnames hxy hd hm text text' line line'
  rcases cases_of_rel (find?_renamed hnames h hline .signal (by decide)) with
    ⟨hs, hs'⟩ | ⟨m, m', hs, hs', hm⟩ <;> rw [hs, hs']
  case inr => exact carried_ofSignal hnames hxy hm text text' line line'
  -- The types that are known may be more afterwards, so both directions are needed.
  constructor
  · intro n hn
    cases hparts : TypedList.ofCode? types code with
    | none => simp [hparts] at hn
    | some parts =>
      obtain ⟨parts', hparts', hlist⟩ := exists_typedList hnames h hline htypes hparts
      simp only [hparts, map_name_ofTypedList] at hn
      simp only [hparts', map_name_ofTypedList]
      exact (carried_namesIn hnames hxy hitem hlist).forth n hn
  · intro n hn
    cases hparts : TypedList.ofCode? types' code' with
    | none => simp [hparts] at hn
    | some parts' =>
      obtain ⟨list, hlist⟩ := exists_list_of_typedList hnames h hline hparts
      simp only [hparts, map_name_ofTypedList] at hn
      exact (carried_namesIn hnames hxy hitem hlist).back n hn

end Line

end KrlWorkbench
