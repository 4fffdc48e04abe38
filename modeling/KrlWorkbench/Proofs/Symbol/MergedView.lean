import KrlWorkbench.Proofs.Symbol.DeclaredKeys
import KrlWorkbench.Proofs.Uri.Listing
import KrlWorkbench.Symbol.Workspace

/-!
# The view is a function of the files

A store is changed file by file, and some changes publish a new view while others do not.  Here it
is shown that none of this can be seen afterwards: the view of a store is the view of the files it
holds, in whatever order they are listed, and what it holds is what the last change of each file
left there.

What the view says about a name is stated over the files alone (`WorkspaceView.Merges`).  Of several
routines of one name the one in the file of the least URI counts; of several variables the first
global one, files in the order of their URIs and declarations in the order of the file, and else
the first.
-/

namespace KrlWorkbench

open List Text

/-- The table stands under the URI. -/
def Stored (held : Text → Option (Uri × SymbolTable)) (u : Uri) (table : SymbolTable) : Prop :=
  held u.text = some (u, table)

/-! ## The view of a list of files -/

namespace WorkspaceView

/-- Of the symbols with a property, this one comes first: in the file of the least URI that has one,
and there before the others. -/
def FirstSymbol (held : Text → Option (Uri × SymbolTable)) (p : Symbol → Bool) (u : Uri)
    (s : Symbol) : Prop :=
  ∃ table, Stored held u table ∧ table.symbols.find? p = some s ∧
    ∀ v table', Stored held v table' → (∃ s' ∈ table'.symbols, p s' = true) → u.le v = true

/-- What a view says about the files behind it. -/
structure Merges (view : WorkspaceView) (held : Text → Option (Uri × SymbolTable)) : Prop where
  /-- A routine is found exactly if some file has one of that name. -/
  hasRoutine : ∀ n, (view.routine? n).isSome = true ↔
    ∃ u table, Stored held u table ∧ ∃ r ∈ table.routines, sameName r.name n = true
  /-- It is the one of the file with the least URI. -/
  routine : ∀ n u r, view.routine? n = some ⟨u, r⟩ ↔
    ∃ table, Stored held u table ∧ table.routine? n = some r ∧
      ∀ v table', Stored held v table' → (table'.routine? n).isSome = true → u.le v = true
  /-- A variable is the first global one of that name, or the first one if none is global. -/
  symbol : ∀ n u s, view.symbol? n = some ⟨u, s⟩ ↔
    FirstSymbol held (fun s => sameName s.name n && s.isGlobal) u s ∨
      (∀ v table, Stored held v table → ∀ s ∈ table.symbols,
        sameName s.name n = true → s.isGlobal = false) ∧
      FirstSymbol held (fun s => sameName s.name n) u s
  /-- The declared keys are those of all routines and variables. -/
  declared : ∀ key, key ∈ view.declaredKeys ↔
    ∃ u table, Stored held u table ∧
      (key ∈ table.routines.map (·.key) ∨ key ∈ table.symbols.map (·.key))

variable {files files' : List (Uri × SymbolTable)} {held : Text → Option (Uri × SymbolTable)}

/-- The order in which the files are listed does not matter. -/
lemma build_eq (h : Lists files held) (h' : Lists files' held) : build files = build files' := by
  have hsorted : sortFiles files = sortFiles files' := h.mergeSort_eq h'
  rw [build, build, hsorted]

lemma mem_sortFiles {f : Uri × SymbolTable} : f ∈ sortFiles files ↔ f ∈ files :=
  mem_mergeSort

lemma stored_iff (h : Lists files held) {u : Uri} {table : SymbolTable} :
    Stored held u table ↔ (u, table) ∈ files := by
  rw [h.mem_iff]
  rfl

lemma findSome?_sortFiles_eq_some_iff {β γ : Type} (h : Lists files held)
    (g : SymbolTable → Option β) (mk : Uri → β → γ)
    (hmk : ∀ u b u' b', mk u b = mk u' b' → u = u' ∧ b = b') {u : Uri} {b : β} :
    (sortFiles files).findSome? (fun f => (g f.2).map (mk f.1)) = some (mk u b) ↔
      ∃ table, Stored held u table ∧ g table = some b ∧
        ∀ v table', Stored held v table' → (g table').isSome = true → u.le v = true := by
  simp only [sortFiles, h.findSome?_mergeSort, stored_iff h, Option.isSome_map]
  constructor
  · rintro ⟨⟨v, table⟩, hmem, hfound, hleast⟩
    obtain ⟨b', hb', heq⟩ := Option.map_eq_some_iff.mp hfound
    obtain ⟨rfl, rfl⟩ := hmk _ _ _ _ heq
    exact ⟨table, hmem, hb', fun w table' => hleast (w, table')⟩
  · rintro ⟨table, hmem, hfound, hleast⟩
    exact ⟨(u, table), hmem, by rw [hfound, Option.map_some],
      fun f hf hsome => hleast f.1 f.2 hf hsome⟩

lemma routine?_build (files : List (Uri × SymbolTable)) (n : Text) :
    (build files).routine? n =
      (sortFiles files).findSome? fun f => (f.2.routine? n).map (LocatedRoutine.mk f.1) := by
  have hfirst := find?_foldl_keepFirst (fun r : LocatedRoutine => r.routine.key) (upper n)
    ((sortFiles files).flatMap fun f => f.2.routines.map fun r => ⟨f.1, r⟩) []
  rw [find?_nil, Option.none_or, find?_flatMap] at hfirst
  refine hfirst.trans ?_
  congr 1
  funext f
  rw [find?_map]
  rfl

lemma find?_symbols_build (files : List (Uri × SymbolTable)) (p : Symbol → Bool) :
    (build files).symbols.find? (fun s => p s.symbol) =
      (sortFiles files).findSome? fun f => (f.2.symbols.find? p).map (LocatedSymbol.mk f.1) := by
  rw [build, find?_flatMap]
  congr 1
  funext f
  rw [find?_map]
  rfl

/-- Global ones are looked for first, then all. -/
lemma symbol?_eq (view : WorkspaceView) (n : Text) :
    view.symbol? n =
      (view.symbols.find? fun s => sameName s.symbol.name n && s.symbol.isGlobal).or
        (view.symbols.find? fun s => sameName s.symbol.name n) := by
  rw [symbol?, find?_filter, head?_filter]
  simp

lemma find?_symbols_eq_some_iff (h : Lists files held) {p : Symbol → Bool} {u : Uri} {s : Symbol} :
    (build files).symbols.find? (fun s => p s.symbol) = some ⟨u, s⟩ ↔ FirstSymbol held p u s := by
  have hfirst := findSome?_sortFiles_eq_some_iff h (fun table => table.symbols.find? p)
    LocatedSymbol.mk (by simp) (u := u) (b := s)
  simpa only [find?_symbols_build, find?_isSome, FirstSymbol] using hfirst

lemma find?_symbols_eq_none_iff (h : Lists files held) {p : Symbol → Bool} :
    (build files).symbols.find? (fun s => p s.symbol) = none ↔
      ∀ v table, Stored held v table → ∀ s ∈ table.symbols, p s = false := by
  simp only [find?_symbols_build, findSome?_eq_none_iff, Option.map_eq_none_iff,
    List.find?_eq_none, mem_sortFiles, Prod.forall, stored_iff h, Bool.not_eq_true]

lemma mem_routineKeys_build (h : Lists files held) {key : Text} :
    key ∈ (build files).routineKeys ↔
      ∃ u table, Stored held u table ∧ key ∈ table.routines.map (·.key) := by
  have hkeys : ∀ routines : List LocatedRoutine,
      key ∈ (routines.foldl addRoutine []).map (fun r => r.routine.key) ↔
        ∃ r ∈ routines, r.routine.key = key :=
    mem_keys_foldl (mem_keys_keepFirst fun r : LocatedRoutine => r.routine.key)
  simp only [routineKeys, build, hkeys, mem_flatMap, mem_map, mem_sortFiles,
    Prod.exists, stored_iff h]
  constructor
  · rintro ⟨_, ⟨u, table, hmem, r, hr, rfl⟩, hkey⟩
    exact ⟨u, table, hmem, r, hr, hkey⟩
  · rintro ⟨u, table, hmem, r, hr, hkey⟩
    exact ⟨⟨u, r⟩, ⟨u, table, hmem, r, hr, rfl⟩, hkey⟩

lemma mem_symbolKeys_build (h : Lists files held) {key : Text} :
    key ∈ (build files).symbols.map (fun s => s.symbol.key) ↔
      ∃ u table, Stored held u table ∧ key ∈ table.symbols.map (·.key) := by
  simp only [build, map_flatMap, map_map, mem_flatMap, mem_sortFiles, Prod.exists, stored_iff h]
  rfl

/-- **What the view says** about a listed set of files. -/
lemma merges_build (h : Lists files held) : (build files).Merges held where
  hasRoutine n := by
    simp only [routine?_build, findSome?_isSome_iff, Option.isSome_map, mem_sortFiles,
      Prod.exists, stored_iff h, SymbolTable.routine?, find?_isSome]
  routine n u r := by
    rw [routine?_build]
    exact findSome?_sortFiles_eq_some_iff h (fun table => table.routine? n) LocatedRoutine.mk
      (by simp)
  symbol n u s := by
    have hglobal := find?_symbols_eq_some_iff h (u := u) (s := s)
      (p := fun s => sameName s.name n && s.isGlobal)
    have hnone := find?_symbols_eq_none_iff h (p := fun s => sameName s.name n && s.isGlobal)
    have hfirst := find?_symbols_eq_some_iff h (u := u) (s := s) (p := fun s => sameName s.name n)
    rw [symbol?_eq, Option.or_eq_some_iff, hglobal, hnone, hfirst]
    simp
  declared key := by
    rw [declaredKeys, mem_append, mem_routineKeys_build h, mem_symbolKeys_build h]
    simp only [and_or_left, exists_or]

end WorkspaceView

/-! ## Changes of a store -/

/-- What can happen to a store. -/
inductive StoreChange where
  | replaced (uri : Uri) (table : SymbolTable)
  | cleared (uri : Uri)
  | reset
  deriving DecidableEq, Repr

namespace StoreChange

/-- What a change does to a store. -/
def apply (store : SymbolStore) : StoreChange → SymbolStore
  | .replaced u table => store.replace u table
  | .cleared u => store.erase u
  | .reset => store.clear

/-- What a change does to the files, one spelling at a time. -/
def write (held : Text → Option (Uri × SymbolTable)) :
    StoreChange → Text → Option (Uri × SymbolTable)
  | .replaced u table, spelling => if spelling = u.text then some (u, table) else held spelling
  | .cleared u, spelling => if spelling = u.text then none else held spelling
  | .reset, _ => none

/-- The files after some changes, from none at all. -/
def heldAfter (changes : List StoreChange) : Text → Option (Uri × SymbolTable) :=
  changes.foldl write fun _ => none

end StoreChange

namespace SymbolStore

/-- The store after some changes, from a fresh one. -/
def after (changes : List StoreChange) : SymbolStore :=
  changes.foldl StoreChange.apply {}

/-- The view is that of the files. -/
def IsPublished (store : SymbolStore) : Prop :=
  store.view = WorkspaceView.build store.files.entries

variable {store : SymbolStore}

lemma isPublished_fresh : IsPublished {} := by
  simp [IsPublished, UriMap.empty, WorkspaceView.build, WorkspaceView.sortFiles]

lemma isPublished_ofFiles (files : UriMap SymbolTable) : (ofFiles files).IsPublished :=
  rfl

lemma isPublished_replace (store : SymbolStore) (u : Uri) (table : SymbolTable) :
    (store.replace u table).IsPublished :=
  isPublished_ofFiles _

/-- Forgetting a file that is not there publishes nothing, and there is nothing to publish. -/
lemma IsPublished.erase (h : store.IsPublished) (u : Uri) : (store.erase u).IsPublished := by
  rw [SymbolStore.erase]
  split
  case isTrue => exact isPublished_ofFiles _
  case isFalse => exact h

lemma find?_files_erase (store : SymbolStore) (u : Uri) (spelling : Text) :
    (store.erase u).files.find? spelling =
      if spelling = u.text then none else store.files.find? spelling := by
  rw [SymbolStore.erase]
  split
  case isTrue => exact UriMap.find?_erase _ _ _
  case isFalse habsent =>
    have hnone : store.files.find? u.text = none := by
      simpa [UriMap.contains] using habsent
    by_cases h : spelling = u.text
    · rw [if_pos h, h, hnone]
    · rw [if_neg h]

/-- The store publishes what is held. -/
structure Publishes (store : SymbolStore) (held : Text → Option (Uri × SymbolTable)) : Prop where
  held : store.files.find? = held
  view : store.IsPublished

variable {held : Text → Option (Uri × SymbolTable)}

lemma Publishes.apply (h : store.Publishes held) (change : StoreChange) :
    (change.apply store).Publishes (change.write held) := by
  obtain ⟨rfl, hview⟩ := h
  cases change with
  | replaced u table =>
    refine ⟨?_, isPublished_replace _ _ _⟩
    funext spelling
    exact UriMap.find?_insert _ _ _ _
  | cleared u =>
    refine ⟨?_, hview.erase u⟩
    funext spelling
    exact find?_files_erase _ _ _
  | reset => exact ⟨rfl, isPublished_fresh⟩

lemma Publishes.foldl (h : store.Publishes held) (changes : List StoreChange) :
    (changes.foldl StoreChange.apply store).Publishes (changes.foldl StoreChange.write held) := by
  induction changes generalizing store held with
  | nil => exact h
  | cons change changes ih => exact ih (h.apply change)

lemma publishes_after (changes : List StoreChange) :
    (after changes).Publishes (StoreChange.heldAfter changes) :=
  Publishes.foldl ⟨rfl, isPublished_fresh⟩ changes

lemma Publishes.lists (h : store.Publishes held) : Lists store.files.entries held := by
  rw [← h.held]
  exact store.files.lists_entries

/-- **The view is a function of the files.** After any changes of a fresh store its view is the view
of the files that the changes leave, listed in any order, so that changes which leave the same files
leave the same view; and the view finds in these files what it should. -/
theorem view_after_changes (changes : List StoreChange) :
    Lists (after changes).files.entries (StoreChange.heldAfter changes) ∧
    (∀ files, Lists files (StoreChange.heldAfter changes) →
      (after changes).view = WorkspaceView.build files) ∧
    (∀ changes', StoreChange.heldAfter changes' = StoreChange.heldAfter changes →
      (after changes').view = (after changes).view) ∧
    (after changes).view.Merges (StoreChange.heldAfter changes) := by
  have h := publishes_after changes
  have hbuild : ∀ files, Lists files (StoreChange.heldAfter changes) →
      (after changes).view = WorkspaceView.build files := fun files hfiles =>
    h.view.trans (WorkspaceView.build_eq h.lists hfiles)
  refine ⟨h.lists, hbuild, ?_, ?_⟩
  · intro changes' hsame
    have h' := publishes_after changes'
    rw [hbuild _ (hsame ▸ h'.lists)]
    exact h'.view
  · rw [h.view]
    exact WorkspaceView.merges_build h.lists

/-- Two files stored in one order, and in the other after a detour: the second run forgets a file it
never had and starts anew once.  The routine of both files is taken from the first of them. -/
theorem view_after_changes_detour :
    let a : Uri := ⟨"file".toList, some .empty, "/a.src".toList, []⟩
    let b : Uri := ⟨"file".toList, some .empty, "/b.src".toList, []⟩
    let inA : SymbolTable := SymbolTable.collect "DEF halt()\nEND".toList
    let inB : SymbolTable := SymbolTable.collect "GLOBAL DECL INT v\nDEF Halt()\nEND".toList
    let changes : List StoreChange := [.replaced b inB, .replaced a inA]
    let changes' : List StoreChange :=
      [.replaced b inA, .cleared a, .reset, .replaced a inA, .replaced b inB]
    Lists [(b, inB), (a, inA)] (StoreChange.heldAfter changes) ∧
      (after changes).view = WorkspaceView.build [(b, inB), (a, inA)] ∧
      StoreChange.heldAfter changes' = StoreChange.heldAfter changes ∧
      (after changes').view = (after changes).view ∧
      ((after changes).view.routine? "HALT".toList).isSome = true := by
  intro a b inA inB changes changes'
  have hne : a.text ≠ b.text := by decide
  have hentries : (after changes).files.entries = [(b, inB), (a, inA)] := by decide +kernel
  have hheld : StoreChange.heldAfter changes' = StoreChange.heldAfter changes := by
    funext spelling
    change (if spelling = b.text then some (b, inB)
        else if spelling = a.text then some (a, inA) else none) =
      if spelling = a.text then some (a, inA)
        else if spelling = b.text then some (b, inB) else none
    by_cases ha : spelling = a.text
    · rw [if_neg (ha ▸ hne), if_pos ha, if_pos ha]
    · rw [if_neg ha, if_neg ha]
  obtain ⟨hlists, hbuild, hsame, hmerges⟩ := view_after_changes changes
  rw [hentries] at hlists
  refine ⟨hlists, hbuild _ hlists, hheld, hsame changes' hheld, ?_⟩
  have hstored : Stored (StoreChange.heldAfter changes) a inA :=
    (WorkspaceView.stored_iff hlists).mpr (by simp)
  exact (hmerges.hasRoutine _).mpr ⟨a, inA, hstored, by decide +kernel⟩

end SymbolStore
end KrlWorkbench
