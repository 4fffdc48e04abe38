import KrlWorkbench.Proofs.Symbol.MergedView

/-!
# Two searches for a variable

A view answers two questions about a variable: which declaration counts (`symbol?`), and what type
its members are read from (`variableType?`).  The first prefers a global declaration to all that
come before it.  The second takes the first declaration whose type has members, global or not.

Both are searches of one list of declarations (`variableType?_eq`), and two searches agree as soon
as what each of them finds would do for the other (`eq_of_find?_eq_some`).  So they part in one case
only: the declaration that counts is global, and a declaration that is not global and has members of
another type comes first.
-/

namespace KrlWorkbench

open List SymbolTable Text

variable {view : WorkspaceView}

/-- Two searches of a list that find what the other one looks for find the same. -/
lemma eq_of_find?_eq_some {α : Type} {p q : α → Bool} {items : List α} {a b : α}
    (ha : items.find? p = some a) (hb : items.find? q = some b) (hpb : p b = true)
    (hqa : q a = true) : a = b := by
  obtain ⟨-, front, behind, rfl, hfront⟩ := find?_eq_some_iff_append.mp ha
  cases hfirst : front.find? q with
  | none => simpa [hfirst, hqa] using hb
  | some c =>
    obtain rfl : c = b := by simpa [hfirst] using hb
    simpa [hpb] using hfront c (mem_of_find?_eq_some hfirst)

lemma lookup_eq_find? {β : Type} (key : Text) (entries : List (Text × β)) :
    entries.lookup key = (entries.find? (·.1 == key)).map (·.2) := by
  induction entries with
  | nil => rfl
  | cons entry entries ih =>
    rw [lookup_cons, find?_cons, Bool.beq_comm, ih]
    cases entry.1 == key <;> rfl

namespace WorkspaceView

/-- The key of the type that the members of a declared name belong to, if it has members. -/
def memberType? (view : WorkspaceView) (s : Symbol) : Option Text :=
  (s.typeName.filter view.isStructured).map upper

/-- Whether a declaration is one of the name and has members. -/
def hasMembers (view : WorkspaceView) (n : Text) (s : Symbol) : Bool :=
  sameName s.name n && (view.memberType? s).isSome

lemma memberType?_eq_some {s : Symbol} {type : Text} (htype : s.typeName = some type)
    (hstructured : view.isStructured type = true) : view.memberType? s = some (upper type) := by
  rw [memberType?, htype, Option.filter_some, if_pos hstructured, Option.map_some]

/-- The members of a variable are those of its first declaration that has members. -/
lemma variableType?_eq (view : WorkspaceView) (n : Text) :
    view.variableType? n = (view.symbols.find? fun s => view.hasMembers n s.symbol).bind
      fun s => view.memberType? s.symbol := by
  let entry (s : LocatedSymbol) : Option (Text × Text) :=
    (view.memberType? s.symbol).map fun type => (s.symbol.key, type)
  have hentries : view.variableTypes =
      (view.symbols.filterMap entry).foldl (keepFirst Prod.fst) [] := by
    refine congrArg (fun f => (view.symbols.filterMap f).foldl (keepFirst Prod.fst) []) ?_
    funext s
    simp only [entry, memberType?]
    cases s.symbol.typeName with
    | none => rfl
    | some type =>
      simp only [Option.filter_some]
      cases view.isStructured type <;> rfl
  have hfirst := find?_foldl_keepFirst Prod.fst (upper n) (view.symbols.filterMap entry) []
  rw [find?_nil, Option.none_or, find?_filterMap] at hfirst
  have hsearch : (fun s => (entry s).any (·.1 == upper n)) =
      fun s : LocatedSymbol => view.hasMembers n s.symbol := by
    funext s
    simp only [entry, hasMembers, sameName, Symbol.key]
    cases view.memberType? s.symbol <;> simp
  rw [variableType?, lookup_eq_find?, hentries, hfirst, hsearch]
  cases view.symbols.find? fun s => view.hasMembers n s.symbol with
  | none => rfl
  | some s =>
    simp only [Option.bind_some, entry, Option.map_map]
    cases view.memberType? s.symbol <;> rfl

lemma sameName_of_symbol? {n : Text} {found : LocatedSymbol} (h : view.symbol? n = some found) :
    found ∈ view.symbols ∧ sameName found.symbol.name n = true := by
  have hfilter : found ∈ view.symbols.filter fun s => sameName s.symbol.name n := by
    rw [symbol?, Option.or_eq_some_iff] at h
    rcases h with h | ⟨-, h⟩
    · exact mem_of_find?_eq_some h
    · exact mem_of_head? h
  exact mem_filter.mp hfilter

/-- The two searches agree, unless one prefers a global declaration to a local one before it. -/
lemma eq_or_isGlobal {n : Text} {found other : LocatedSymbol} (hfound : view.symbol? n = some found)
    (hmembers : view.hasMembers n found.symbol = true)
    (hother : view.symbols.find? (fun s => view.hasMembers n s.symbol) = some other) :
    other = found ∨ found.symbol.isGlobal = true ∧ other.symbol.isGlobal = false := by
  have hname : sameName other.symbol.name n = true := by
    have hsuits := find?_some hother
    simp only [hasMembers, Bool.and_eq_true] at hsuits
    exact hsuits.1
  rw [symbol?_eq, Option.or_eq_some_iff] at hfound
  rcases hfound with hglobal | ⟨-, hplain⟩
  · have hsuits := find?_some hglobal
    simp only [Bool.and_eq_true] at hsuits
    cases hisGlobal : other.symbol.isGlobal with
    | true => exact .inl (eq_of_find?_eq_some hother hglobal hmembers (by simp [hname, hisGlobal]))
    | false => exact .inr ⟨hsuits.2, rfl⟩
  · exact .inl (eq_of_find?_eq_some hother hplain hmembers hname)

/-- Of the declarations of `n` that have members the first one, which is not global, has those of
another type. -/
structure Outruns (held : Text → Option (Uri × SymbolTable)) (view : WorkspaceView) (n type : Text)
    (u : Uri) (s : Symbol) : Prop where
  first : FirstSymbol held (view.hasMembers n) u s
  isLocal : s.isGlobal = false
  other : view.memberType? s ≠ some (upper type)

end WorkspaceView

namespace SymbolStore

open WorkspaceView in
/-- **The members of a variable are those of the declaration that counts**, unless that one is
global and outrun. -/
theorem variableType?_eq_iff_not_outrun (changes : List StoreChange) (n type : Text) (u : Uri)
    (s : Symbol) (hfound : (after changes).view.symbol? n = some ⟨u, s⟩)
    (htype : s.typeName = some type) (hstructured : (after changes).view.isStructured type = true) :
    (after changes).view.variableType? n = some (upper type) ↔
      ¬ (s.isGlobal = true ∧
        ∃ v s', Outruns (StoreChange.heldAfter changes) (after changes).view n type v s') := by
  have hpublishes := publishes_after changes
  have hview : (after changes).view = build (after changes).files.entries := hpublishes.view
  have hfirst : ∀ {p : Symbol → Bool} {v s'},
      (after changes).view.symbols.find? (fun s => p s.symbol) = some ⟨v, s'⟩ ↔
        FirstSymbol (StoreChange.heldAfter changes) p v s' := by
    rw [hview]
    exact find?_symbols_eq_some_iff hpublishes.lists
  have hmember := memberType?_eq_some htype hstructured
  obtain ⟨hmem, hname⟩ := sameName_of_symbol? hfound
  have hsuits : (after changes).view.hasMembers n s = true := by
    rw [hasMembers, hname, hmember]
    rfl
  -- What lookup finds has members, so the other search finds something too.
  obtain ⟨⟨v, s'⟩, hother⟩ := Option.isSome_iff_exists.mp
    (find?_isSome.mpr ⟨_, hmem, hsuits⟩ :
      ((after changes).view.symbols.find? fun s =>
        (after changes).view.hasMembers n s.symbol).isSome)
  rw [variableType?_eq, hother, Option.bind_some]
  constructor
  · rintro hsame ⟨-, w, s'', houtruns⟩
    have hunique := hfirst.mpr houtruns.first
    rw [hother, Option.some.injEq, LocatedSymbol.mk.injEq] at hunique
    exact houtruns.other (hunique.2 ▸ hsame)
  · intro hnone
    by_contra hdiffers
    rcases eq_or_isGlobal hfound hsuits hother with hsame | ⟨hisGlobal, hisLocal⟩
    · rw [hsame] at hdiffers
      exact hdiffers hmember
    · exact hnone ⟨hisGlobal, v, s', hfirst.mp hother, hisLocal, hdiffers⟩

lemma view_of_sorted {changes : List StoreChange} {files : List (Uri × SymbolTable)}
    (hentries : (after changes).files.entries = files)
    (hsorted : files.Pairwise fun a b => a.1.le b.1 = true) :
    (after changes).view =
      let types := (files.flatMap fun f => f.2.types).foldl WorkspaceView.addType []
      { symbols := files.flatMap fun f => f.2.symbols.map fun s => ⟨f.1, s⟩
        routines := (files.flatMap fun f => f.2.routines.map fun r => ⟨f.1, r⟩).foldl
          WorkspaceView.addRoutine []
        types := types.map (WorkspaceView.pruneMembers (types.map (·.key))) } := by
  have hfiles : WorkspaceView.sortFiles files = files := mergeSort_of_pairwise hsorted
  have hview : (after changes).view = WorkspaceView.build (after changes).files.entries :=
    (publishes_after changes).view
  rw [hview, hentries, WorkspaceView.build, hfiles]

/-- A local variable of a simple type comes before the global one and does not outrun it. -/
theorem variableType?_eq_iff_not_outrun_simple :
    let a : Uri := ⟨"file".toList, some .empty, "/a.src".toList, []⟩
    let b : Uri := ⟨"file".toList, some .empty, "/b.dat".toList, []⟩
    let changes : List StoreChange :=
      [.replaced a (collect "DECL INT spot".toList),
        .replaced b (collect "GLOBAL DECL E6POS spot".toList)]
    let view := (after changes).view
    ∃ s : Symbol, view.symbol? "Spot".toList = some ⟨b, s⟩ ∧ s.typeName = some "E6POS".toList ∧
      view.isStructured "E6POS".toList = true ∧ s.isGlobal = true ∧
      view.variableType? "Spot".toList = some "E6POS".toList ∧
      ¬ ∃ v s', WorkspaceView.Outruns (StoreChange.heldAfter changes) view "Spot".toList
        "E6POS".toList v s' := by
  intro a b changes view
  have hview : view = _ := @view_of_sorted changes _ rfl (by decide +kernel)
  let s : Symbol := ⟨"spot".toList, .var, some "E6POS".toList, some ⟨⟨0, 18⟩, ⟨0, 22⟩⟩, true, none⟩
  have hfound : view.symbol? "Spot".toList = some ⟨b, s⟩ := by
    rw [hview]
    decide +kernel
  have hstructured : view.isStructured "E6POS".toList = true := by
    rw [hview]
    decide +kernel
  have htype : view.variableType? "Spot".toList = some (upper "E6POS".toList) := by
    rw [hview]
    decide +kernel
  have hnone := (variableType?_eq_iff_not_outrun changes "Spot".toList "E6POS".toList b s hfound rfl
    hstructured).mp htype
  exact ⟨s, hfound, rfl, hstructured, rfl, htype, fun houtruns => hnone ⟨rfl, houtruns⟩⟩

/-- A local frame comes before the global position: lookup finds the position, and the members are
those of the frame. -/
theorem variableType?_of_local_frame :
    let a : Uri := ⟨"file".toList, some .empty, "/a.src".toList, []⟩
    let b : Uri := ⟨"file".toList, some .empty, "/b.dat".toList, []⟩
    let view := (after [.replaced a (collect "DECL FRAME spot".toList),
      .replaced b (collect "GLOBAL DECL E6POS spot".toList)]).view
    (view.symbol? "spot".toList).bind (·.symbol.typeName) = some "E6POS".toList ∧
      view.isStructured "E6POS".toList = true ∧
      view.variableType? "spot".toList = some "FRAME".toList := by
  intro a b view
  have hview : view = _ := view_of_sorted rfl (by decide +kernel)
  rw [hview]
  decide +kernel

end SymbolStore
end KrlWorkbench
