import KrlWorkbench.Proofs.Finding.DeclaredNames
import Mathlib.Data.List.Flatten

/-!
# More files never make a name undeclared

A file that comes into the workspace brings names and types.  Its names are known from then on, and
its types may turn a line that looked like a use of two names into a declaration, which is not
searched at all.  Both take findings away, and nothing adds one: the findings about undeclared names
are then some of those there were before, in the same order.

A view is compared with another by the keys it knows (`WorkspaceView.Extends`).  Each step of the
search follows that order: the kind of a line (`LineKind.ofLine_eq_usage_mono`), what is known of a
name (`Context.isKnown_mono`), and hence the findings of each line (`Finding.undeclaredIn_sublist`).
-/

namespace KrlWorkbench

open List Context Text

variable {code text : Text} {types types' : List Text}

/-! ## Views that know more -/

namespace WorkspaceView

/-- The view knows every type and every name that the other one knows. -/
structure Extends (view' view : WorkspaceView) : Prop where
  types : view.typeKeys ⊆ view'.typeKeys
  declared : view.declaredKeys ⊆ view'.declaredKeys

variable {files files' : List (Uri × SymbolTable)} {held held' : Text → Option (Uri × SymbolTable)}

lemma mem_typeKeys_build (h : Lists files held) {key : Text} :
    key ∈ (build files).typeKeys ↔
      ∃ u table, Stored held u table ∧ key ∈ table.types.map (·.key) := by
  have hpruned : (build files).typeKeys =
      (((sortFiles files).flatMap fun f => f.2.types).foldl addType []).map (·.key) := by
    simp only [typeKeys, build, map_map, Function.comp_def, key_pruneMembers]
  simp only [hpruned, mem_keys_foldl_addType, map_nil, not_mem_nil, or_false,
    map_flatMap, mem_flatMap, mem_sortFiles, Prod.exists, stored_iff h]

/-- Files that are all still there are all still known. -/
lemma extends_build (h : Lists files held) (h' : Lists files' held')
    (hheld : ∀ {u table}, Stored held u table → Stored held' u table) :
    (build files').Extends (build files) where
  types key hkey := by
    obtain ⟨u, table, hstored, hmem⟩ := (mem_typeKeys_build h).mp hkey
    exact (mem_typeKeys_build h').mpr ⟨u, table, hheld hstored, hmem⟩
  declared key hkey := by
    obtain ⟨u, table, hstored, hmem⟩ := ((merges_build h).declared key).mp hkey
    exact ((merges_build h').declared key).mpr ⟨u, table, hheld hstored, hmem⟩

end WorkspaceView

/-- A table that is stored under a new URI adds to what is known. -/
lemma SymbolStore.IsPublished.extends_replace {store : SymbolStore} (h : store.IsPublished)
    {u : Uri} (hnew : store.table? u = none) (table : SymbolTable) :
    (store.replace u table).view.Extends store.view := by
  rw [h, isPublished_replace store u table]
  refine WorkspaceView.extends_build store.files.lists_entries (UriMap.lists_entries _) ?_
  intro v other (hstored : store.files.find? v.text = some (v, other))
  have hother : v.text ≠ u.text := by
    intro hsame
    rw [table?, UriMap.get?, ← hsame, hstored] at hnew
    cases hnew
  exact (UriMap.find?_insert _ _ _ _).trans ((if_neg hother).trans hstored)

/-! ## The search with more knowledge -/

lemma LineKind.ofCode?_eq_none_of_usage
    (h : ofCode types code = .usage) : TypedList.ofCode? types code = none := by
  cases hfound : LineRule.typeDefinition.find? code with
  | some found =>
    simp only [ofCode, hfound] at h
    split_ifs at h
  | none =>
    simp only [ofCode, hfound] at h
    split_ifs at h with _ _ _ hnone
    exact Option.not_isSome_iff_eq_none.mp hnone

/-- With more types a line that is still a use was one before. -/
lemma LineKind.ofCode_eq_usage_mono (h : types ⊆ types')
    (husage : ofCode types' code = .usage) : ofCode types code = .usage := by
  have hnone' := ofCode?_eq_none_of_usage husage
  have hnone : TypedList.ofCode? types code = none := by
    cases hparts : TypedList.ofCode? types code with
    | none => rfl
    | some parts =>
      rw [TypedList.ofCode?_mono h hparts] at hnone'
      cases hnone'
  rw [← husage, ofCode, ofCode, hnone, hnone']

lemma LineKind.ofLine_eq_usage_mono (h : types ⊆ types') {line : Text}
    (husage : ofLine types' line = .usage) : ofLine types line = .usage := by
  unfold ofLine at husage ⊢
  dsimp only at husage ⊢
  split_ifs at husage ⊢
  exact ofCode_eq_usage_mono h husage

variable {view view' : WorkspaceView}

lemma Context.types_mono (h : view'.Extends view) (text : Text) :
    (ofText text view).types ⊆ (ofText text view').types :=
  append_subset.mpr ⟨subset_append_of_subset_left _ h.types, subset_append_right _ _⟩

lemma Context.isKnown_mono (h : view'.Extends view) {name : Text}
    (hknown : (ofText text view).isKnown name = true) :
    (ofText text view').isKnown name = true := by
  have hdeclared : (ofText text view).declared ⊆ (ofText text view').declared := by
    intro key hkey
    simp only [ofText, mem_append] at hkey ⊢
    rcases hkey with (hkey | hkey | hkey) | hkey
    · exact .inl (.inl hkey)
    · exact .inl (.inr (.inl (h.types hkey)))
    · exact .inl (.inr (.inr hkey))
    · exact .inr (h.declared hkey)
  simp only [isKnown, Bool.or_eq_true, contains_iff_mem] at hknown ⊢
  exact hknown.imp_right fun hkey => hdeclared hkey

namespace Finding

lemma isUndeclared_mono (h : view'.Extends view) {labels : List Text}
    {previous : Option Token} {token : Token}
    (hundeclared : isUndeclared (ofText text view') labels code previous token = true) :
    isUndeclared (ofText text view) labels code previous token = true := by
  have hknown : (ofText text view').isKnown token.text = false →
      (ofText text view).isKnown token.text = false := by
    intro hunknown
    by_contra hknown
    rw [isKnown_mono h (by simpa using hknown)] at hunknown
    cases hunknown
  simp only [isUndeclared, Bool.and_eq_true, Bool.not_eq_true'] at hundeclared ⊢
  obtain ⟨⟨⟨⟨hlead, hunknown⟩, hlabel⟩, hcalled⟩, hfield⟩ := hundeclared
  exact ⟨⟨⟨⟨hlead, hknown hunknown⟩, hlabel⟩, hcalled⟩, hfield⟩

/-- **What is found in one line** with more knowledge was found before. -/
lemma undeclaredIn_sublist (h : view'.Extends view) (text raw : Text) (i : Nat)
    (labels : List Text) :
    (undeclaredIn (ofText text view') labels
        ⟨i, raw, Code.clean raw, LineKind.ofLine (ofText text view').types raw⟩).Sublist
      (undeclaredIn (ofText text view) labels
        ⟨i, raw, Code.clean raw, LineKind.ofLine (ofText text view).types raw⟩) := by
  by_cases hskipped : LineKind.ofLine (ofText text view').types raw ≠ .usage ∨
      LineRule.label.holds (Code.clean raw) = true
  · have hnone : undeclaredIn (ofText text view') labels
        ⟨i, raw, Code.clean raw, LineKind.ofLine (ofText text view').types raw⟩ = [] := by
      rw [undeclaredIn, if_pos (by simpa using hskipped)]
    rw [hnone]
    exact nil_sublist _
  · rw [not_or, not_ne_iff] at hskipped
    obtain ⟨husage, hlabel⟩ := hskipped
    have husage' := LineKind.ofLine_eq_usage_mono (types_mono h text) husage
    simp only [undeclaredIn, husage, husage', hlabel, bne_self_eq_false, Bool.or_false,
      Bool.false_eq_true, if_false, filterMap_eq_flatMap_toList]
    refine List.Sublist.flatMap_right _ fun entry _ => ?_
    split
    case isTrue hundeclared =>
      rw [if_pos (isUndeclared_mono h hundeclared)]
      exact List.Sublist.refl _
    case isFalse => exact nil_sublist _

/-- Labels are read off the code, whatever is known. -/
lemma labels_ofText (text : Text) (view view' : WorkspaceView) :
    labels (ofText text view') = labels (ofText text view) := by
  simp only [labels, ofText, filterMap_map]
  rfl

/-- **What is found in a document** with more knowledge was found before. -/
lemma undeclared_sublist (h : view'.Extends view) (text : Text) :
    (undeclared (ofText text view')).Sublist (undeclared (ofText text view)) := by
  rw [undeclared, undeclared, labels_ofText text view view']
  have hlines : ∀ view, (ofText text view).lines = text.lines.zipIdx.map fun entry =>
      ⟨entry.2, entry.1, Code.clean entry.1,
        LineKind.ofLine (ofText text view).types entry.1⟩ := fun _ => rfl
  rw [hlines view', hlines view, flatMap_map, flatMap_map]
  exact List.Sublist.flatMap_right _ fun entry _ => undeclaredIn_sublist h text entry.1 entry.2 _

end Finding

/-! ## Diagnostics -/

/-- Whether a diagnostic is about an undeclared name. -/
def Diagnostic.isUndeclaredName (d : Diagnostic) : Bool :=
  d.code == some (.text "undefinedVariable")

lemma Diagnostic.isUndeclaredName_ofFinding (locale : Locale) (f : Finding) :
    (ofFinding locale f).isUndeclaredName = true ↔ ∃ n, f.cause = .undefinedVariable n := by
  obtain ⟨range, cause⟩ := f
  cases cause <;> simp [isUndeclaredName, ofFinding, Cause.code, FindingCode.text]

/-- The diagnostics about undeclared names are those of the search for them. -/
lemma filter_diagnose (text : Text) (isSystemFile : Bool) (view : WorkspaceView)
    (options : Finding.Options) :
    (diagnose text isSystemFile view options).filter Diagnostic.isUndeclaredName =
      (if isSystemFile then [] else Finding.undeclared (ofText text view)).map
        (Diagnostic.ofFinding options.locale) := by
  obtain ⟨others, hothers, hreport⟩ :=
    Finding.exists_report_eq_append text isSystemFile view options
  have hfound : ∀ f ∈ (if isSystemFile then [] else Finding.undeclared (ofText text view)),
      (Diagnostic.ofFinding options.locale f).isUndeclaredName = true := by
    intro f hf
    split at hf
    case isTrue => cases hf
    case isFalse =>
      obtain ⟨line, -, hf⟩ := mem_flatMap.mp hf
      obtain ⟨token, -, rfl⟩ := Finding.exists_token_of_mem_undeclaredIn hf
      exact (Diagnostic.isUndeclaredName_ofFinding _ _).mpr ⟨token.text, rfl⟩
  have hrest : ∀ f ∈ others,
      ¬(Diagnostic.ofFinding options.locale f).isUndeclaredName = true := by
    intro f hf hname
    obtain ⟨n, hn⟩ := (Diagnostic.isUndeclaredName_ofFinding _ _).mp hname
    exact hothers f hf n hn
  rw [diagnose, hreport, map_append, filter_append, filter_eq_self.mpr (forall_mem_map.mpr hfound),
    filter_eq_nil_iff.mpr (forall_mem_map.mpr hrest), append_nil]

/-- **More files never make a name undeclared.**  Whatever was stored before, once a table is stored
under a URI that had none, the diagnostics about undeclared names are some of those there were, in
the same order, for every document, kind of file and choice of options. -/
theorem undeclared_names_sublist_of_new_file (changes : List StoreChange) {u : Uri}
    (hnew : (SymbolStore.after changes).table? u = none) (table : SymbolTable) (text : Text)
    (isSystemFile : Bool) (options : Finding.Options) :
    ((diagnose text isSystemFile ((SymbolStore.after changes).replace u table).view options).filter
        Diagnostic.isUndeclaredName).Sublist
      ((diagnose text isSystemFile (SymbolStore.after changes).view options).filter
        Diagnostic.isUndeclaredName) := by
  have hextends := (SymbolStore.publishes_after changes).view.extends_replace hnew table
  rw [filter_diagnose, filter_diagnose]
  cases isSystemFile with
  | true => rw [if_pos rfl, if_pos rfl]
  | false =>
    rw [if_neg Bool.false_ne_true, if_neg Bool.false_ne_true]
    exact (Finding.undeclared_sublist hextends text).map _

/-- A file that was there without symbols comes back with a structure and a variable: of four names
three are no longer reported, two of them because their line is now a declaration. -/
theorem undeclared_names_sublist_of_new_file_types :
    let d : Uri := ⟨"file".toList, some .empty, "/d.dat".toList, []⟩
    let changes : List StoreChange := [.replaced d ⟨[], [], []⟩, .cleared d]
    let table := SymbolTable.collect
      "DEFDAT d PUBLIC\nGLOBAL STRUC T INT n\nGLOBAL DECL INT b\nENDDAT\n".toList
    let text : Text := "T a\nb = c\n".toList
    let found := fun view => (diagnose text false view {}).filter Diagnostic.isUndeclaredName
    (SymbolStore.after changes).table? d = none ∧
      (found (SymbolStore.after changes).view).length = 4 ∧
      (found ((SymbolStore.after changes).replace d table).view).length = 1 ∧
      (found ((SymbolStore.after changes).replace d table).view).Sublist
        (found (SymbolStore.after changes).view) := by
  intro d changes table text found
  have hnew : (SymbolStore.after changes).table? d = none := by decide +kernel
  have hlength : ∀ view, (found view).length =
      (Finding.undeclared (Context.ofText text view)).length := by
    intro view
    simp only [found, filter_diagnose, Bool.false_eq_true, if_false, length_map]
  exact ⟨hnew, (hlength _).trans (by decide +kernel), (hlength _).trans (by decide +kernel),
    undeclared_names_sublist_of_new_file changes hnew table text false {}⟩

end KrlWorkbench
