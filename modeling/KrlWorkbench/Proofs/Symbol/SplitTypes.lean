import KrlWorkbench.Proofs.Symbol.MergedView
import KrlWorkbench.Proofs.Text.Lines
import Mathlib.Data.List.Induction

/-!
# Types do not depend on the division into files

Structures and enumerations may be written in one file or in many.  The view of the workspace has
the types that one document would have which holds the texts of all files, in the order of their
URIs (`merge_collect`).

A file does not know the types of other files and takes their names for members.  The view leaves
these out afterwards.  Both are one filter: reading a definition with known names is reading it with
none and leaving the known names out of its members (`ofLine?_eq`), and leaving names out twice is
leaving them out once.  Likewise the first definition of a name counts, in a file and among the
files, and taking the first ones of first ones is taking the first ones (`foldl_addType_foldl`).
-/

namespace KrlWorkbench

open List Text

variable {key : Text} {files : List (Uri × SymbolTable)} {keys keys' : List Text}
  {types : List TypeDefinition} {α : Type} {d : TypeDefinition}

/-! ## The lines of joined texts -/

namespace Text

/-- Texts joined by a line feed have the lines of both, up to an empty line: a carriage return at
the end of the first text and the line feed are one break. -/
lemma filter_lines_append_lineFeed (a b : Text) :
    (lines (a ++ '\n' :: b)).filter (· != []) = (lines a ++ lines b).filter (· != []) := by
  induction lined a with
  | last hl =>
    rw [lines_of_noBreak hl, show '\n' :: b = ['\n'] ++ b from rfl,
      lines_append_break hl (.inl rfl), singleton_append]
  | @more l brk rest hl hbrk _ ih =>
    by_cases hcr : brk = ['\r'] ∧ rest = []
    · obtain ⟨rfl, rfl⟩ := hcr
      have hjoined : l ++ (['\r'] ++ []) ++ '\n' :: b = l ++ (['\r', '\n'] ++ b) := by simp
      rw [hjoined, lines_append_break hl (.inr (.inl rfl)), lines_append_break hl hbrk,
        lines_of_noBreak noBreak_nil, cons_append, filter_cons, filter_cons]
      rfl
    · have hbrk' : IsBreak brk (rest ++ '\n' :: b) := by
        cases rest with
        | nil => exact hbrk.imp_right (.imp_right fun h => absurd ⟨h.1, rfl⟩ hcr)
        | cons c rest => exact hbrk
      rw [append_assoc, append_assoc, lines_append_break hl hbrk',
        lines_append_break hl hbrk, cons_append, filter_cons, filter_cons, ih]

lemma filter_lines_intercalate (texts : List Text) :
    (lines (['\n'].intercalate texts)).filter (· != []) =
      (texts.flatMap lines).filter (· != []) := by
  induction texts with
  | nil => rfl
  | cons text texts ih =>
    cases texts with
    | nil => simp
    | cons next texts =>
      rw [intercalate_cons_cons, append_assoc, singleton_append, filter_lines_append_lineFeed,
        filter_append, ih, ← filter_append, ← flatMap_cons]

/-- What is read line by line from joined texts, where an empty line says nothing. -/
lemma filterMap_lines_intercalate {f : Text → Option α} (hf : f [] = none) (texts : List Text) :
    (lines (['\n'].intercalate texts)).filterMap f =
      texts.flatMap fun text => text.lines.filterMap f := by
  have hfilter : ∀ ls : List Text, ls.filterMap f = (ls.filter (· != [])).filterMap f := by
    intro ls
    rw [filterMap_filter]
    congr 1
    funext l
    by_cases hl : l = []
    · simp [hl, hf]
    · simp [hl]
  rw [hfilter, filter_lines_intercalate, ← hfilter, filterMap_flatMap]

end Text

namespace WorkspaceView

open TypeDefinition

/-! ## The first definition of a name -/

lemma mem_keys_foldl_addType (ds types : List TypeDefinition) :
    key ∈ (ds.foldl addType types).map (·.key) ↔
      key ∈ ds.map (·.key) ∨ key ∈ types.map (·.key) := by
  rw [mem_map (l := ds)]
  exact mem_keys_foldl_add (mem_keys_keepFirst TypeDefinition.key) ds types

lemma addType_of_mem (h : d.key ∈ types.map (·.key)) : addType types d = types := by
  obtain ⟨old, hold, hkey⟩ := mem_map.mp h
  rw [addType, if_pos]
  exact any_eq_true.mpr ⟨old, hold, beq_iff_eq.mpr hkey⟩

lemma addType_of_not_mem (h : d.key ∉ types.map (·.key)) : addType types d = types ++ [d] := by
  rw [addType, if_neg]
  intro htaken
  obtain ⟨old, hold, hkey⟩ := any_eq_true.mp htaken
  exact h (mem_map.mpr ⟨old, hold, beq_iff_eq.mp hkey⟩)

/-- A change of the definitions that keeps their names keeps which ones come first. -/
lemma foldl_addType_map {f : TypeDefinition → TypeDefinition} (hf : ∀ d, (f d).key = d.key)
    (ds : List TypeDefinition) : (ds.map f).foldl addType [] = (ds.foldl addType []).map f :=
  @foldl_keepFirst_map _ TypeDefinition.key f hf ds

lemma foldl_addType_foldl (ds types : List TypeDefinition) :
    (ds.foldl addType []).foldl addType types = ds.foldl addType types := by
  induction ds using List.reverseRecOn with
  | nil => rfl
  | append_singleton ds d ih =>
    rw [foldl_concat, foldl_concat]
    by_cases htaken : d.key ∈ (ds.foldl addType []).map (·.key)
    · -- A name that is taken among `ds` is taken wherever all of them were added.
      have hkey : d.key ∈ (ds.foldl addType types).map (·.key) := by
        rw [← ih, mem_keys_foldl_addType]
        exact .inl htaken
      rw [addType_of_mem htaken, addType_of_mem hkey, ih]
    · rw [addType_of_not_mem htaken, foldl_concat, ih]

lemma foldl_addType_flatMap (f : α → List TypeDefinition) (files : List α)
    (types : List TypeDefinition) :
    (files.flatMap fun a => (f a).foldl addType []).foldl addType types =
      (files.flatMap f).foldl addType types := by
  induction files generalizing types with
  | nil => rfl
  | cons a files ih =>
    rw [flatMap_cons, foldl_append, foldl_addType_foldl, ih, flatMap_cons, foldl_append]

/-! ## Names of types among the members -/

@[simp] lemma key_pruneMembers (keys : List Text) (d : TypeDefinition) :
    (pruneMembers keys d).key = d.key := by
  rw [pruneMembers]
  split <;> rfl

lemma pruneMembers_congr (h : ∀ key, key ∈ keys ↔ key ∈ keys') :
    pruneMembers keys = pruneMembers keys' := by
  funext d
  have hcontains : ∀ key, keys.contains key = keys'.contains key := by
    intro key
    rw [Bool.eq_iff_iff, contains_iff_mem, contains_iff_mem, h]
  simp only [pruneMembers, hcontains]

lemma pruneMembers_pruneMembers (h : keys ⊆ keys') (d : TypeDefinition) :
    pruneMembers keys' (pruneMembers keys d) = pruneMembers keys' d := by
  by_cases henum : d.isEnum = true
  · rw [pruneMembers.eq_def keys d, if_pos henum]
  · have hmembers : (d.members.filter fun m => !keys.contains (upper m)).filter
        (fun m => !keys'.contains (upper m)) =
        d.members.filter fun m => !keys'.contains (upper m) := by
      rw [filter_filter]
      refine filter_congr fun m _ => ?_
      by_cases hm : upper m ∈ keys'
      · simp [hm]
      · have hkeys : upper m ∉ keys := fun hkeys => hm (h hkeys)
        simp [hm, hkeys]
    simp only [pruneMembers, henum, Bool.false_eq_true, if_false, hmembers]

/-- The members that are read with known names are those read with none, less the known names. -/
lemma membersOf_eq_filter (known : List Text) (list : Text) :
    membersOf known false list =
      (membersOf [] false list).filter fun m => !known.contains (upper m) := by
  rw [membersOf, membersOf, filter_flatMap]
  congr 1
  funext item
  rw [filter_filterMap]
  congr 1
  funext word
  by_cases hname : isIdentifier (ListItem.stripIndex word) = true
  · by_cases hbuiltin : BuiltinType.isBuiltinType (ListItem.stripIndex word) = true
    · simp [hname, hbuiltin]
    · by_cases hknown : upper (ListItem.stripIndex word) ∈ known
      · simp [hname, hbuiltin, hknown, Option.filter]
      · simp [hname, hbuiltin, hknown, Option.filter]
  · simp [hname]

/-- Reading a definition with known names leaves these out of its members. -/
lemma ofLine?_eq (known : List Text) (line : Text) :
    ofLine? known line = (ofLine? [] line).map (pruneMembers known) := by
  rw [ofLine?, ofLine?, Option.map_map]
  congr 1
  funext found
  cases henum : isEnumeration found with
  | true => simp [pruneMembers, henum, membersOf]
  | false => simp [pruneMembers, henum, membersOf_eq_filter known]

/-- The definitions in a text, none left out and with all words of their lists for members. -/
def definitionsIn (text : Text) : List TypeDefinition :=
  text.lines.filterMap (ofLine? [])

lemma collect_eq_map (text : Text) :
    collect text [] = ((definitionsIn text).foldl addType []).map
      (pruneMembers ((definitionsIn text).map (·.key))) := by
  have hdefinitions : ∀ known, text.lines.filterMap (ofLine? known) =
      (definitionsIn text).map (pruneMembers known) := by
    intro known
    rw [definitionsIn, map_filterMap]
    congr 1
    funext line
    exact ofLine?_eq known line
  rw [collect, nil_append, keysOf_eq_map_key, ← definitionsIn, hdefinitions]
  exact foldl_addType_map (key_pruneMembers _) _

lemma definitionsIn_intercalate (texts : List Text) :
    definitionsIn (['\n'].intercalate texts) = texts.flatMap definitionsIn :=
  filterMap_lines_intercalate (by decide +kernel) texts

/-- A text defines for itself the types that its lines define. -/
lemma mem_keys_collect {text : Text} :
    key ∈ (collect text []).map (·.key) ↔ key ∈ (definitionsIn text).map (·.key) := by
  have hkey : (fun d : TypeDefinition => d.key) ∘ pruneMembers ((definitionsIn text).map (·.key)) =
      (·.key) := funext fun d => key_pruneMembers _ d
  rw [collect_eq_map, map_map, hkey, mem_keys_foldl_addType]
  simp

/-- **Division.**  Of some texts, the types that each defines for itself are merged into those that
the joined text defines. -/
lemma merge_collect (texts : List Text) :
    let types := (texts.flatMap fun text => collect text []).foldl addType []
    types.map (pruneMembers (types.map (·.key))) = collect (['\n'].intercalate texts) [] := by
  intro types
  set keys := (texts.flatMap definitionsIn).map (·.key) with hkeys
  have hsame : ∀ key, key ∈ types.map (·.key) ↔ key ∈ keys := by
    intro key
    rw [mem_keys_foldl_addType, hkeys, map_flatMap, map_flatMap, mem_flatMap, mem_flatMap]
    simp only [mem_keys_collect, map_nil, not_mem_nil, or_false]
  -- What a file leaves out of its members is left out again for all files.
  have hfile : ∀ text ∈ texts, (collect text []).map (pruneMembers keys) =
      ((definitionsIn text).foldl addType []).map (pruneMembers keys) := by
    intro text htext
    have hsub : (definitionsIn text).map (·.key) ⊆ keys := by
      rw [hkeys, map_flatMap]
      exact fun key hkey => mem_flatMap.mpr ⟨text, htext, hkey⟩
    rw [collect_eq_map, map_map]
    exact map_congr_left fun d _ => pruneMembers_pruneMembers hsub d
  calc types.map (pruneMembers (types.map (·.key)))
      = types.map (pruneMembers keys) := by rw [pruneMembers_congr hsame]
    _ = (texts.flatMap fun text => (collect text []).map (pruneMembers keys)).foldl addType [] := by
        rw [← foldl_addType_map (key_pruneMembers keys), map_flatMap]
    _ = ((texts.flatMap fun text => (definitionsIn text).foldl addType []).foldl addType []).map
          (pruneMembers keys) := by
        rw [flatMap_congr hfile, ← map_flatMap, foldl_addType_map (key_pruneMembers keys)]
    _ = ((texts.flatMap definitionsIn).foldl addType []).map (pruneMembers keys) := by
        rw [foldl_addType_flatMap]
    _ = collect (['\n'].intercalate texts) [] := by
        rw [collect_eq_map, definitionsIn_intercalate]

end WorkspaceView

namespace StoreChange

/-- Files of different spellings are all held once they are stored. -/
lemma lists_heldAfter_replaced (h : (files.map fun f => f.1.text).Nodup) :
    Lists files (heldAfter (files.map fun f => .replaced f.1 f.2)) := by
  refine ⟨h, fun spelling => ?_⟩
  have hfold : ∀ held : Text → Option (Uri × SymbolTable),
      ((files.map fun f => .replaced f.1 f.2).foldl write held) spelling =
        (files.find? fun f => f.1.text == spelling).or (held spelling) := by
    induction files with
    | nil => exact fun held => rfl
    | cons f files ih =>
      intro held
      rw [map_cons, nodup_cons] at h
      rw [map_cons, foldl_cons, ih h.2, find?_cons, write]
      by_cases hspelling : spelling = f.1.text
      · subst hspelling
        have hnone : (files.find? fun g => g.1.text == f.1.text) = none := by
          rw [List.find?_eq_none]
          intro g hg hsame
          exact h.1 (mem_map.mpr ⟨g, hg, beq_iff_eq.mp hsame⟩)
        simp [hnone]
      · have hother : (f.1.text == spelling) = false := by simpa using Ne.symm hspelling
        rw [hother, if_neg hspelling]
  rw [heldAfter, hfold, Option.or_none]

end StoreChange

/-- What storing the files one after another changes. -/
def storing (files : List (Uri × Text)) : List StoreChange :=
  files.map fun f => .replaced f.1 (SymbolTable.collect f.2)

/-- **Types do not depend on the division into files.**  When texts are stored under different URIs,
the types of the workspace are those of one document, in which the texts follow each other in the
order of their URIs.  It does not matter by which changes the files came to be stored. -/
theorem types_of_files_eq_types_of_joined (files : List (Uri × Text))
    (hdistinct : (files.map fun f => f.1.text).Nodup)
    (hincreasing : files.Pairwise fun f g => f.1.le g.1 = true) :
    let joined := ['\n'].intercalate (files.map (·.2))
    (SymbolStore.after (storing files)).view.types = TypeDefinition.collect joined [] ∧
      ∀ changes, StoreChange.heldAfter changes = StoreChange.heldAfter (storing files) →
        (SymbolStore.after changes).view.types = TypeDefinition.collect joined [] := by
  intro joined
  set tables := files.map fun f => (f.1, SymbolTable.collect f.2) with htables
  have hstoring : storing files = tables.map fun f => .replaced f.1 f.2 := by
    rw [htables, map_map]
    rfl
  have hlists : Lists tables (StoreChange.heldAfter (storing files)) := by
    rw [hstoring]
    apply StoreChange.lists_heldAfter_replaced
    rw [htables, map_map]
    exact hdistinct
  have hsorted : WorkspaceView.sortFiles tables = tables := by
    refine mergeSort_of_pairwise ?_
    rw [htables, pairwise_map]
    exact hincreasing
  have hbuild : (WorkspaceView.build tables).types = TypeDefinition.collect joined [] := by
    have htypes : (tables.flatMap fun f => f.2.types) =
        (files.map (·.2)).flatMap fun text => TypeDefinition.collect text [] := by
      rw [htables, flatMap_map, flatMap_map]
      rfl
    simp only [WorkspaceView.build, hsorted, htypes]
    exact WorkspaceView.merge_collect (files.map (·.2))
  -- What is published depends on the tables alone that are held in the end.
  have hall : ∀ changes, StoreChange.heldAfter changes = StoreChange.heldAfter (storing files) →
      (SymbolStore.after changes).view.types = TypeDefinition.collect joined [] := by
    intro changes hheld
    have hpublished := SymbolStore.publishes_after changes
    rw [hheld] at hpublished
    rw [hpublished.view, WorkspaceView.build_eq hpublished.lists hlists, hbuild]
  exact ⟨hall _ rfl, hall⟩

/-- The first file takes a type of the second for a member, and names one that the second defines
again: the workspace has both types, and the members of the joined text. -/
theorem types_of_files_eq_types_of_joined_across :
    let a : Uri := ⟨"file".toList, some .empty, "/a.dat".toList, []⟩
    let b : Uri := ⟨"file".toList, some .empty, "/b.dat".toList, []⟩
    let inA := "STRUC outer inner p, REAL x\nENUM mode off, on\r".toList
    let inB := "STRUC Inner INT n\nENUM MODE slow".toList
    let files := [(a, inA), (b, inB)]
    (files.map fun f => f.1.text).Nodup ∧
      files.Pairwise (fun f g => f.1.le g.1 = true) ∧
      (SymbolStore.after (storing files)).view.types =
        TypeDefinition.collect (inA ++ '\n' :: inB) [] ∧
      TypeDefinition.collect (inA ++ '\n' :: inB) [] =
        [⟨"outer".toList, ["p".toList, "x".toList], false⟩,
          ⟨"mode".toList, ["off".toList, "on".toList], true⟩,
          ⟨"Inner".toList, ["n".toList], false⟩] := by
  intro a b inA inB files
  have hdistinct : (files.map fun f => f.1.text).Nodup := by decide
  have hincreasing : files.Pairwise fun f g => f.1.le g.1 = true := by decide
  exact ⟨hdistinct, hincreasing, (types_of_files_eq_types_of_joined files hdistinct hincreasing).1,
    by decide +kernel⟩

end KrlWorkbench
