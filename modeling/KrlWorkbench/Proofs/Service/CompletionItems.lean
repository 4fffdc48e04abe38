import KrlWorkbench.Proofs.Code.CursorWords
import KrlWorkbench.Proofs.Code.DataListKeywords
import KrlWorkbench.Proofs.Service.CallConverse
import KrlWorkbench.Proofs.Service.TypedPlaces
import KrlWorkbench.Proofs.Symbol.FirstOccurrences
import KrlWorkbench.Service.Completion

/-!
# What completion replaces and offers

The range that an item replaces is computed backwards from the position, by the length of what has
been typed.  It is right because what has been typed ends at the position, however it was found: by
a search for a member access or by going back over the characters of a name (`typedIn`).

Routines, library functions and keywords are offered in this order, each source without the names of
those before it, so a name is offered by the first source that has it.
-/

namespace KrlWorkbench

open List Code Text

namespace Completion

variable {text before : Text} {p : Position} {view : WorkspaceView} {table : SymbolTable}
  {r : Request} {item : CompletionItem}

/-! ## What has been typed -/

/-- What has been typed of a name at the end of a text: of a member, the word behind the point. -/
def typedIn (before : Text) : Text :=
  if (LineRule.memberAccess.find? before).isSome then before.rtakeWhile isWordChar
  else before.rtakeWhile CursorWord.isNameOrDollar

/-- An index as a search for members reads it: what is between its brackets closes none. -/
def IsFlat (index : Text) : Prop :=
  index = [] ∨ ∃ s, index = '[' :: (s ++ [']']) ∧ ']' ∉ s

lemma isFlat_of_fits {here : Cursor} {index v : Text} {found : Groups}
    (h : Pattern.Fits (.option (.char '[' ++ .many (· != ']') ++ .char ']')) here index v found) :
    IsFlat index := by
  cases h with
  | altRight h =>
    cases h
    exact .inl rfl
  | altLeft h =>
    obtain ⟨_, _, _, _, rfl, -, h, hclose⟩ := h.exists_of_append
    obtain ⟨_, s, _, _, rfl, -, hopen, hs⟩ := h.exists_of_append
    cases hopen with | one _ hopen =>
    cases hclose with | one _ hclose =>
    obtain rfl := beq_iff_eq.mp hopen
    obtain rfl := beq_iff_eq.mp hclose
    exact .inr ⟨s, by simp, hs.not_mem_of_stopsAt rfl⟩

/-- What is found is a name, an index, a point and a word, and none begins further left. -/
lemma exists_of_find?_memberAccess {m : Match}
    (h : LineRule.memberAccess.find? before = some m) :
    ∃ lead index, before = lead ++ (m.text 1 ++ (index ++ '.' :: m.text 2)) ∧
      IsRun (fun c => isNameStart c || c == '$') LineRule.isNamePart (m.text 1) ∧ IsFlat index ∧
      (∀ c ∈ m.text 2, isWordChar c = true) ∧
      ∀ x y, lead = x ++ y → y ≠ [] → LineRule.memberAccess.pattern.matchAt
        (Pattern.between x (y ++ (m.text 1 ++ (index ++ '.' :: m.text 2)))) = none := by
  obtain ⟨lead, _, there, rfl, hmatch, hleft⟩ := Pattern.exists_matchAt_of_find? h
  obtain ⟨_, _, found, hrest, hfits, hnext⟩ := Pattern.exists_fits_of_run hmatch
  obtain ⟨hm, -⟩ := Prod.mk.inj (Option.some.inj hnext)
  obtain ⟨_, _, _, _, rfl, rfl, hfront, hend⟩ := hfits.exists_of_append
  obtain ⟨_, word, _, _, rfl, rfl, hfront, hword⟩ := hfront.exists_of_append
  obtain ⟨_, _, _, _, rfl, rfl, hfront, hpoint⟩ := hfront.exists_of_append
  obtain ⟨name, index, _, _, rfl, rfl, hname, hindex⟩ := hfront.exists_of_append
  have hgroup := hindex.lookup_eq_none (i := 1) rfl
  cases hend with | textEnd =>
  cases hname with | group _ hname =>
  cases hword with | group _ hword =>
  cases hpoint with | one _ hc =>
  obtain rfl := beq_iff_eq.mp hc
  obtain ⟨hchars, rfl⟩ := hword.forall_of_many
  simp only [Pattern.between_rest, append_assoc, singleton_append, append_nil] at hrest
  subst hrest
  obtain ⟨rfl, rfl⟩ : m.text 1 = name ∧ m.text 2 = word := by
    simp [← hm, Match.text, Match.group?, lookup_append, lookup_cons, hgroup]
  exact ⟨lead, index, rfl, hname.isRun, isFlat_of_fits hindex, hchars, hleft⟩

/-- The word that is found behind a point is the one at the end of the text. -/
lemma text_of_find?_memberAccess {m : Match}
    (h : LineRule.memberAccess.find? before = some m) :
    m.text 2 = before.rtakeWhile isWordChar := by
  obtain ⟨lead, index, hbefore, -, -, hchars, -⟩ := exists_of_find?_memberAccess h
  have htake := (CursorWord.takeWhile_append_of_head
    (b := '.' :: (index.reverse ++ ((m.text 1).reverse ++ lead.reverse)))
    (fun c hc => hchars c (mem_reverse.mp hc)) (by rfl)).1
  rw [rtakeWhile, hbefore]
  simpa using congrArg List.reverse htake.symm

/-- The edit of the item ends at the position and begins in the same line, what stands from there to
the position is what has been typed, and the label begins with that up to case. -/
def Replaces (text : Text) (p : Position) (item : CompletionItem) : Prop :=
  ∃ (lead typed rest : Text) (start : Nat),
    text.lines[p.line]? = some (lead ++ typed ++ rest) ∧ typed = typedIn (lead ++ typed) ∧
    item.edit.range = ⟨⟨p.line, unitLength lead⟩, p⟩ ∧
    text.offset ⟨p.line, unitLength lead⟩ = some start ∧
    text.offset p = some (start + byteLength typed) ∧ typed <+: dropBytes start text ∧
    upper typed <+: upper item.label

/-- An item as every source makes it. -/
def Request.Fits (r : Request) (item : CompletionItem) : Prop :=
  r.accepts item.label = true ∧ item.edit.range = (r.edit []).range

lemma replaces_of_fits {a b : Text} (hline : text.lines[p.line]? = some (a ++ b))
    (hp : p.character = unitLength a) (h : Request.Fits ⟨p, typedIn a⟩ item) :
    Replaces text p item := by
  obtain ⟨haccepts, hrange⟩ := h
  obtain ⟨start, after, htext, hstart, -⟩ := exists_lineStart hline
  have hend := offset_lineStart hline hstart
  have htyped : typedIn a <:+ a := by
    rw [typedIn]
    split <;> exact rtakeWhile_suffix _ _
  obtain ⟨lead, hlead⟩ := htyped
  generalize htyped : typedIn a = typed at hlead haccepts hrange
  subst hlead
  rw [← hp] at hend
  refine ⟨lead, typed, b, byteLength start + byteLength lead, hline, htyped.symm,
    ?_, ?_, ?_, ?_, ?_⟩
  · rw [hrange, Request.edit, hp, unitLength_append, Nat.add_sub_cancel]
  · rw [append_assoc] at hline
    exact offset_lineStart hline hstart
  · rwa [byteLength_append, ← Nat.add_assoc] at hend
  · have htext' : text = (start ++ lead) ++ (typed ++ (b ++ after)) := by rw [htext]; simp
    rw [htext', ← byteLength_append, dropBytes_append]
    exact prefix_append _ _
  · rw [Request.accepts, Bool.and_eq_true] at haccepts
    have hhead := beq_iff_eq.mp haccepts.2
    have hlabel := takeBytes_append_dropBytes (byteLength typed) item.label
    rw [← hlabel, upper_append, hhead]
    exact prefix_append _ _

/-! ## Names -/

variable {α : Type} {key : α → Text}

/-- What `firstByKey` keeps, told by `keepFirst`. -/
lemma append_firstByKey {seen all : List Text} {found : List α}
    (h : ∀ k, k ∈ all ↔ k ∈ found.map key ∨ k ∈ seen) (items : List α) :
    found ++ firstByKey key all items =
      (items.filter fun a => !seen.contains (key a)).foldl (keepFirst key) found := by
  induction items generalizing all found with
  | nil => simp [firstByKey]
  | cons a items ih =>
    have htaken := h (key a)
    rw [firstByKey]
    by_cases hseen : key a ∈ seen
    · rw [if_pos (by simpa using htaken.mpr (.inr hseen)),
        filter_cons_of_neg (by simpa using hseen)]
      exact ih h
    rw [filter_cons_of_pos (by simpa using hseen), foldl_cons, keepFirst]
    by_cases hfound : key a ∈ found.map key
    · rw [if_pos (by simpa using htaken.mpr (.inl hfound)), if_pos (by simpa using hfound)]
      exact ih h
    · rw [if_neg (by simpa using fun hall => (htaken.mp hall).elim hfound hseen),
        if_neg (by simpa using hfound), ← singleton_append, ← append_assoc]
      refine ih fun k => ?_
      rw [mem_cons, h, map_append, mem_append, map_singleton, mem_singleton, ← or_assoc,
        or_comm (a := k = key a)]

lemma firstByKey_eq (seen : List Text) (items : List α) :
    firstByKey key seen items =
      (items.filter fun a => !seen.contains (key a)).foldl (keepFirst key) [] :=
  @append_firstByKey _ _ seen seen [] (by simp) items

def ofTier (tier : Tier) (items : List CompletionItem) : List CompletionItem :=
  items.filter (·.sortText.head? == some tier.digit)

/-- What completion answers: every item replaces what has been typed, and no name is offered
twice. -/
structure IsSound (text : Text) (p : Position) (view : WorkspaceView)
    (items : List CompletionItem) : Prop where
  replaces : ∀ item ∈ items, Replaces text p item
  names : ((ofTier .userFunction items ++ ofTier .library items ++ ofTier .keyword items).map
    (upper ·.label)).Nodup
  /-- A routine keeps the library function and the keyword of its name away. -/
  taken : ∀ item ∈ ofTier .library items ++ ofTier .keyword items,
    ∀ f ∈ (SymbolTable.collect text).routines ++ view.routines.map (·.routine),
      upper item.label ≠ f.key
  /-- A routine of the document keeps those of the workspace away. -/
  own : ∀ item ∈ ofTier .userFunction items, ∀ f ∈ (SymbolTable.collect text).routines,
    upper item.label = f.key → item.detail = some f.label
  symbols : (((ofTier .var items).filter (·.kind ≠ .field)).map (upper ·.label)).Nodup

lemma fits_of_mem_nameItems {hashed : Bool} (h : item ∈ nameItems r hashed table view) :
    r.Fits item := by
  simp only [nameItems, mem_append, routineItems, libraryItems, keywordItems, systemItems,
    variableItems, mem_map, mem_filter, Bool.and_eq_true] at h
  rcases h with (((⟨_, h, rfl⟩ | ⟨_, h, rfl⟩) | ⟨_, h, rfl⟩) | ⟨_, h, rfl⟩) | ⟨_, h, rfl⟩
  · exact ⟨h.2, rfl⟩
  · exact ⟨h.2, rfl⟩
  · exact ⟨h.2.2, rfl⟩
  · exact ⟨h.2, rfl⟩
  · exact ⟨h.2, rfl⟩

lemma isSound_nil : IsSound text p view [] := by
  constructor <;> simp [ofTier]

lemma isSound_memberItems {owner : Text} (hreplaces : ∀ item, r.Fits item → Replaces text p item) :
    IsSound text p view (memberItems r table view owner) := by
  rw [memberItems]
  split
  case h_1 => exact isSound_nil
  case h_2 =>
    refine ⟨fun item hitem => ?_, ?_, ?_, ?_, ?_⟩
    · obtain ⟨member, hmember, rfl⟩ := mem_map.mp hitem
      exact hreplaces _ ⟨(mem_filter.mp hmember).2, rfl⟩
    all_goals simp [ofTier, filter_map, Function.comp_def, Request.sortText, Tier.digit]

lemma ofTier_nameItems (r : Request) (hashed : Bool) (table : SymbolTable)
    (view : WorkspaceView) :
    let found := routines table view
    let library := libraryFunctions (found.map Routine.key)
    let names := found.map Routine.key ++ library.map fun f => upper f.name.toList
    let items := nameItems r hashed table view
    ofTier .userFunction items = routineItems r found ∧
      ofTier .library items = libraryItems r library ∧
      ofTier .keyword items = keywordItems r names ∧
      ofTier .var items = variableItems r hashed table view := by
  refine ⟨?_, ?_, ?_, ?_⟩ <;>
    simp [ofTier, nameItems, routineItems, libraryItems, keywordItems, systemItems, variableItems,
      filter_map, Function.comp_def, Request.sortText, Tier.digit]

/-- The names of a source are those of some of its entries. -/
lemma label_sublist {make : α → CompletionItem} (h : ∀ a, upper (make a).label = key a)
    (accepts : α → Bool) (found : List α) :
    (((found.filter accepts).map make).map (upper ·.label)).Sublist (found.map key) := by
  rw [map_map, show (upper ·.label) ∘ make = key from funext h]
  exact filter_sublist.map key

/-- The keywords are spelled in capitals, each once. -/
lemma keyword_names : (Keyword.all.map fun k => upper k.name.toList).Nodup ∧
    ∀ k ∈ Keyword.all, upper k.name.toList = k.name.toList := by
  decide +kernel

lemma notMem_of_mem_keywordItems {taken : List Text} (h : item ∈ keywordItems r taken) :
    upper item.label ∉ taken := by
  obtain ⟨k, hk, rfl⟩ := mem_map.mp h
  obtain ⟨hk, hfree⟩ := mem_filter.mp hk
  rw [keyword_names.2 k hk]
  simpa using (Bool.and_eq_true_iff.mp hfree).1

lemma notMem_of_mem_libraryFunctions {taken : List Text} {k : Text}
    (h : k ∈ (libraryFunctions taken).map fun f => upper f.name.toList) : k ∉ taken := by
  obtain ⟨f, hf, rfl⟩ := mem_map.mp h
  rw [libraryFunctions, firstByKey_eq] at hf
  simpa using of_mem_filter ((foldl_keepFirst_sublist _).subset hf)

lemma nodup_firstByKey (seen : List Text) (items : List α) :
    ((firstByKey key seen items).map key).Nodup := by
  rw [firstByKey_eq]
  exact nodup_foldl_keepFirst _ nodup_nil

lemma nodup_sources (r : Request) (table : SymbolTable) (view : WorkspaceView) :
    let found := routines table view
    let library := libraryFunctions (found.map Routine.key)
    let names := found.map Routine.key ++ library.map fun f => upper f.name.toList
    ((routineItems r found ++ libraryItems r library ++ keywordItems r names).map
      (upper ·.label)).Nodup := by
  intro found library names
  have htaken : ((routineItems r found ++ libraryItems r library).map (upper ·.label)).Sublist
      names := by
    rw [map_append]
    exact (label_sublist (fun _ => rfl) _ _).append (label_sublist (fun _ => rfl) _ _)
  have hnames : names.Nodup := by
    refine nodup_append'.mpr ⟨nodup_firstByKey _ _, nodup_firstByKey _ _, fun k hk hlibrary => ?_⟩
    exact notMem_of_mem_libraryFunctions hlibrary hk
  have hkeywords : ((keywordItems r names).map (upper ·.label)).Nodup :=
    (label_sublist (fun _ => rfl) _ _).nodup keyword_names.1
  rw [map_append]
  refine nodup_append'.mpr ⟨htaken.nodup hnames, hkeywords, fun k hk hkeyword => ?_⟩
  obtain ⟨item, hitem, rfl⟩ := mem_map.mp hkeyword
  exact notMem_of_mem_keywordItems hitem (htaken.subset hk)

lemma isSound_nameItems (r : Request) (hashed : Bool) (text : Text) (view : WorkspaceView)
    (hreplaces : ∀ item, r.Fits item → Replaces text p item) :
    IsSound text p view (nameItems r hashed (SymbolTable.collect text) view) := by
  obtain ⟨hfound, hlibrary, hkeywords, hsymbols⟩ :=
    ofTier_nameItems r hashed (SymbolTable.collect text) view
  refine ⟨fun item hitem => hreplaces item (fits_of_mem_nameItems hitem), ?_, ?_, ?_, ?_⟩
  · rw [hfound, hlibrary, hkeywords]
    exact nodup_sources r _ view
  · intro item hitem f hf heq
    have hkey : upper item.label ∈ (routines (SymbolTable.collect text) view).map Routine.key := by
      rw [routines, firstByKey_eq, mem_keys_foldl (mem_keys_keepFirst _)]
      exact ⟨f, by simpa using hf, heq.symm⟩
    rw [hlibrary, hkeywords] at hitem
    rcases mem_append.mp hitem with hitem | hitem
    · refine notMem_of_mem_libraryFunctions ?_ hkey
      exact (label_sublist (fun _ => rfl) _ _).subset (mem_map_of_mem hitem)
    · exact notMem_of_mem_keywordItems hitem (mem_append_left _ hkey)
  · intro item hitem f hf heq
    rw [hfound] at hitem
    obtain ⟨g, hg, rfl⟩ := mem_map.mp hitem
    have hg := mem_of_mem_filter hg
    -- The document's own routine comes first and keeps the others out.
    have hown := CallGraph.routine?_eq_some hf (beq_iff_eq.mpr heq.symm)
    rw [routines, firstByKey_eq] at hg
    have hfirst := find?_of_mem_foldl_keepFirst hg
    simp only [contains_nil, Bool.not_false, filter_true, find?_append] at hfirst
    rw [show (SymbolTable.collect text).routines.find? (·.key == g.key) = some f from hown]
      at hfirst
    cases hfirst
    rfl
  · rw [hsymbols]
    exact (filter_sublist.map _).nodup
      ((label_sublist (fun _ => rfl) _ _).nodup (nodup_firstByKey _ _))

end Completion

/-- **Completion replaces what has been typed and offers no name twice.** -/
theorem complete_isSound (text : Text) (p : Position) (view : WorkspaceView) :
    Completion.IsSound text p view (complete text p view) := by
  rw [complete]
  split
  case h_1 => exact Completion.isSound_nil
  case h_2 place hplace =>
    obtain ⟨a, b, hline, hp, rfl⟩ := Place.exists_of_at? hplace
    simp only [Place.before_mk]
    split
    case isTrue => exact Completion.isSound_nil
    case isFalse =>
      split
      case h_1 found hfound =>
        have htyped : found.text 2 = Completion.typedIn a := by
          rw [Completion.typedIn, if_pos (by simp [hfound]),
            Completion.text_of_find?_memberAccess hfound]
        rw [htyped]
        exact Completion.isSound_memberItems fun _ => Completion.replaces_of_fits hline hp
      case h_2 hnone =>
        have htyped : CursorWord.typedBefore a (byteLength a) = Completion.typedIn a := by
          rw [Completion.typedIn, if_neg (by simp [hnone]),
            CursorWord.typedBefore, takeBytes_byteLength, rtakeWhile]
        rw [htyped]
        exact Completion.isSound_nameItems _ _ _ _ fun _ => Completion.replaces_of_fits hline hp

end KrlWorkbench
