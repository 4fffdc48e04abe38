import KrlWorkbench.Proofs.Renaming.Declarations
import KrlWorkbench.Proofs.Symbol.DeclaredKeys
import KrlWorkbench.Proofs.Symbol.LineForms

/-!
# A table lists the first declaration of each key

What a document declares stands at sites, each with the number of its line and its index in the list
that the line declares.  Of the sites with one key the table shows the first, and it shows them in
the order of the sites.  A site that shows a parameter may have been refined by a later one, which
leaves its name, its kind and whether it is global.

The symbols of a table arise by `Symbol.add`, which searches the table and changes it in place.
`keepFirst` only ever appends.  Run side by side on the same sites they stay in step
(`forall₂_foldl_add`): the table that `keepFirst` builds holds the sites, and each symbol stands for
the site at its position.
-/

namespace KrlWorkbench

open List SymbolTable Text

/-! ## Keeping the first of each key -/

lemma find?_of_mem_foldl_keepFirst {α : Type} {keyOf : α → Text} {items : List α} {a : α}
    (h : a ∈ items.foldl (keepFirst keyOf) []) : items.find? (keyOf · == keyOf a) = some a := by
  have hfind : (items.foldl (keepFirst keyOf) []).find? (keyOf · == keyOf a) =
      items.find? (keyOf · == keyOf a) :=
    (find?_foldl_keepFirst keyOf (keyOf a) items []).trans (by simp)
  rw [← hfind]
  have hnodup : ((items.foldl (keepFirst keyOf) []).map keyOf).Nodup :=
    nodup_foldl_keepFirst items nodup_nil
  cases hfirst : (items.foldl (keepFirst keyOf) []).find? (keyOf · == keyOf a) with
  | none =>
    have hne := List.find?_eq_none.mp hfirst a h
    simp at hne
  | some first =>
    have hkey := find?_some hfirst
    rw [beq_iff_eq] at hkey
    rw [inj_on_of_nodup_map hnodup (mem_of_find?_eq_some hfirst) h hkey]

/-! ## Symbols and the sites they stand for -/

/-- What a table keeps of the first symbol of a key: the name, the kind, whether it is global, and
everything else unless it is a parameter. -/
structure Symbol.StandsFor (s first : Symbol) : Prop where
  name : s.name = first.name
  kind : s.kind = first.kind
  isGlobal : s.isGlobal = first.isGlobal
  same : s.kind ≠ .parameter →
    s.typeName = first.typeName ∧ s.range = first.range ∧ s.value = first.value

/-- A symbol that a line declares, with the number of the line and its index in what the line
declares. -/
structure DeclarationSite where
  line : Nat
  index : Nat
  symbol : Symbol

namespace DeclarationSite

/-- The key of the symbol. -/
def key (site : DeclarationSite) : Text :=
  site.symbol.key

/-- Stands in a line above the other, or further left in the list of the same line. -/
def Before (a b : DeclarationSite) : Prop :=
  a.line < b.line ∨ a.line = b.line ∧ a.index < b.index

/-- The document declares the symbol there. -/
def IsIn (site : DeclarationSite) (text : Text) : Prop :=
  ∃ line, text.lines[site.line]? = some line ∧ allBlank (Code.codePart line) = false ∧
    (Symbol.ofLine text (TypeDefinition.keysOf text.lines) site.line
      (Code.codePart line))[site.index]? = some site.symbol

/-- The document declares the symbol there, and its key nowhere before. -/
structure IsFirst (site : DeclarationSite) (text : Text) : Prop where
  isIn : site.IsIn text
  first : ∀ other : DeclarationSite, other.IsIn text → other.key = site.key →
    other = site ∨ site.Before other

/-- The sites of a line. -/
def ofLine (text : Text) (entry : Nat × Text) : List DeclarationSite :=
  (Symbol.ofLine text (TypeDefinition.keysOf text.lines) entry.1 entry.2).zipIdx.map fun found =>
    ⟨entry.1, found.2, found.1⟩

/-- The sites of a document. -/
def all (text : Text) : List DeclarationSite :=
  (codeLines text).flatMap (ofLine text)

variable {text : Text} {site : DeclarationSite}

lemma map_symbol_all (text : Text) :
    (all text).map (·.symbol) = (codeLines text).flatMap fun entry =>
      Symbol.ofLine text (TypeDefinition.keysOf text.lines) entry.1 entry.2 := by
  rw [all, map_flatMap]
  refine congrArg (List.flatMap · _) ?_
  simp [ofLine, Function.comp_def]

lemma mem_ofLine_iff {entry : Nat × Text} :
    site ∈ ofLine text entry ↔ site.line = entry.1 ∧
      (Symbol.ofLine text (TypeDefinition.keysOf text.lines) entry.1 entry.2)[site.index]? =
        some site.symbol := by
  rw [ofLine, mem_map]
  constructor
  · rintro ⟨found, hfound, rfl⟩
    exact ⟨rfl, mk_mem_zipIdx_iff_getElem?.mp hfound⟩
  · rintro ⟨hline, hsymbol⟩
    exact ⟨(site.symbol, site.index), mk_mem_zipIdx_iff_getElem?.mpr hsymbol, by rw [← hline]⟩

lemma mem_all_iff : site ∈ all text ↔ site.IsIn text := by
  simp only [all, mem_flatMap, mem_ofLine_iff]
  constructor
  · rintro ⟨⟨number, code⟩, hentry, rfl, hsymbol⟩
    obtain ⟨line, hline, rfl, hblank⟩ := mem_codeLines_iff.mp hentry
    exact ⟨line, hline, hblank, hsymbol⟩
  · rintro ⟨line, hline, hblank, hsymbol⟩
    exact ⟨(site.line, Code.codePart line),
      mem_codeLines_iff.mpr ⟨line, hline, rfl, hblank⟩, rfl, hsymbol⟩

lemma pairwise_zipIdx {α : Type} (l : List α) : l.zipIdx.Pairwise fun a b => a.2 < b.2 := by
  rw [← pairwise_map (f := Prod.snd), zipIdx_map_snd]
  exact pairwise_lt_range'

lemma pairwise_all (text : Text) : (all text).Pairwise Before := by
  rw [all, pairwise_flatMap]
  constructor
  · intro entry _
    rw [ofLine, pairwise_map]
    exact (pairwise_zipIdx _).imp fun h => .inr ⟨rfl, h⟩
  · have hlines : (codeLines text).Pairwise fun a b => a.1 < b.1 := by
      refine List.Pairwise.filter _ ?_
      rw [pairwise_map]
      exact pairwise_zipIdx _
    refine hlines.imp fun hlt a ha b hb => .inl ?_
    rwa [(mem_ofLine_iff.mp ha).1, (mem_ofLine_iff.mp hb).1]

/-- The sites that a table shows. -/
def firsts (text : Text) : List DeclarationSite :=
  (all text).foldl (keepFirst key) []

lemma pairwise_firsts (text : Text) : (firsts text).Pairwise Before :=
  (pairwise_all text).sublist (foldl_keepFirst_sublist _)

lemma isFirst_of_mem_firsts (h : site ∈ firsts text) : site.IsFirst text := by
  refine ⟨mem_all_iff.mp ((foldl_keepFirst_sublist _).subset h), fun other hother hkey => ?_⟩
  obtain ⟨-, above, below, hall, habove⟩ :=
    find?_eq_some_iff_append.mp (find?_of_mem_foldl_keepFirst h)
  rw [← mem_all_iff, hall, mem_append, mem_cons] at hother
  rcases hother with hother | rfl | hother
  · have hne := habove other hother
    simp [hkey] at hne
  · exact .inl rfl
  · have hpairwise := pairwise_all text
    rw [hall, pairwise_append] at hpairwise
    exact .inr (rel_of_pairwise_cons hpairwise.2.1 hother)

end DeclarationSite

namespace Symbol

/-! ## Adding in step -/

lemma StandsFor.refl (s : Symbol) : StandsFor s s :=
  ⟨rfl, rfl, rfl, fun _ => ⟨rfl, rfl, rfl⟩⟩

lemma StandsFor.key_eq {s first : Symbol} (h : StandsFor s first) : s.key = first.key :=
  congrArg upper h.name

lemma StandsFor.refine {s first : Symbol} (h : StandsFor s first) (new : Symbol) :
    StandsFor (s.refine new) first := by
  rw [Symbol.refine]
  split
  case isTrue hparameter =>
    simp only [Bool.and_eq_true, decide_eq_true_eq] at hparameter
    exact ⟨h.name, h.kind, h.isGlobal, fun hkind => absurd hparameter.1 hkind⟩
  case isFalse => exact h

variable {sites : List DeclarationSite} {symbols : List Symbol}

/-- A table is in step with the sites it shows. -/
abbrev InStep : List DeclarationSite → List Symbol → Prop :=
  List.Forall₂ fun site s => StandsFor s site.symbol

lemma forall₂_add (h : InStep sites symbols) (site : DeclarationSite) :
    InStep (keepFirst DeclarationSite.key sites site) (add site.symbol symbols) := by
  induction h with
  | nil => exact .cons (.refl _) .nil
  | @cons old s sites symbols hold hrest ih =>
    have hkeys : (old.key == site.key) = (s.key == site.symbol.key) :=
      congrArg (· == site.symbol.key) hold.key_eq.symm
    rw [keepFirst_cons, add, hkeys]
    by_cases hkey : s.key == site.symbol.key
    · rw [if_pos hkey, if_pos hkey]
      exact .cons (hold.refine site.symbol) hrest
    · rw [if_neg hkey, if_neg hkey]
      exact .cons hold ih

lemma forall₂_foldl_add (items : List DeclarationSite) (h : InStep sites symbols) :
    InStep (items.foldl (keepFirst DeclarationSite.key) sites)
      ((items.map (·.symbol)).foldl (fun found s => s.add found) symbols) := by
  induction items generalizing sites symbols with
  | nil => exact h
  | cons site items ih => exact ih (forall₂_add h site)

lemma exists_site_of_mem {s : Symbol} (h : InStep sites symbols) (hs : s ∈ symbols) :
    ∃ site ∈ sites, StandsFor s site.symbol := by
  induction h with
  | nil => cases hs
  | @cons site first sites symbols hfirst _ ih =>
    rcases mem_cons.mp hs with rfl | hs
    · exact ⟨site, mem_cons_self, hfirst⟩
    · obtain ⟨site, hsite, hstands⟩ := ih hs
      exact ⟨site, mem_cons_of_mem _ hsite, hstands⟩

/-! ## Names -/

/-- Everything a line declares but structures has an identifier for a name. -/
lemma isIdentifier_of_mem_ofLine {text code : Text} {types : List Text} {line : Nat} {s : Symbol}
    (h : s ∈ ofLine text types line code) (hkind : s.kind ≠ .record) :
    isIdentifier s.name = true := by
  cases fromLine_of_mem h with
  | parameter hr hp =>
    obtain ⟨_, _, _, params, -, rfl⟩ := Routine.exists_ofParts hr
    have hname := mem_map_of_mem (f := (·.name)) hp
    rw [Routine.ofParts, Param.map_name_ofList, namesIn] at hname
    exact (mem_filter.mp hname).2
  | enumMember hname => exact hname
  | record => exact absurd rfl hkind
  | signal _ _ hname => exact hname
  | var _ _ hname => exact hname

end Symbol

namespace SymbolTable

/-- The symbols of a table stand for the first sites. -/
lemma forall₂_firsts (text : Text) :
    List.Forall₂ (fun site s => Symbol.StandsFor s site.symbol) (DeclarationSite.firsts text)
      (collect text).symbols := by
  have hsymbols := Symbol.forall₂_foldl_add (DeclarationSite.all text) .nil
  rwa [DeclarationSite.map_symbol_all] at hsymbols

lemma map_key_symbols (text : Text) :
    (collect text).symbols.map (·.key) = (DeclarationSite.firsts text).map (·.key) := by
  rw [← forall₂_eq_eq_eq, forall₂_map_left_iff, forall₂_map_right_iff]
  exact (forall₂_firsts text).flip.imp fun _ _ h => h.key_eq

/-- **A table lists the first declaration of each key.**  No key is listed twice, neither among the
symbols nor among the routines nor among the types.  The symbols stand for the first sites of their
keys, in the order of the sites, and every key that is declared is listed.  All names but those of
structures are identifiers. -/
theorem collect_lists_first_declarations (text : Text) :
    let table := collect text
    (table.symbols.map (·.key)).Nodup ∧ (table.routines.map (·.key)).Nodup ∧
      (table.types.map (·.key)).Nodup ∧
    (∃ sites : List DeclarationSite, sites.Pairwise DeclarationSite.Before ∧
      (∀ site ∈ sites, site.IsFirst text) ∧
      List.Forall₂ (fun site s => Symbol.StandsFor s site.symbol) sites table.symbols) ∧
    (∀ site : DeclarationSite, site.IsIn text → site.key ∈ table.symbols.map (·.key)) ∧
    ∀ s ∈ table.symbols, s.kind ≠ .record → isIdentifier s.name = true := by
  intro table
  have hfirsts : List.Forall₂ (fun site s => Symbol.StandsFor s site.symbol)
      (DeclarationSite.firsts text) table.symbols := forall₂_firsts text
  refine ⟨?_, nodup_foldl_keepFirst _ nodup_nil, nodup_foldl_keepFirst _ nodup_nil,
    ⟨DeclarationSite.firsts text, DeclarationSite.pairwise_firsts text,
      fun site => DeclarationSite.isFirst_of_mem_firsts, hfirsts⟩, fun site hsite => ?_,
    fun s hs hkind => ?_⟩
  · rw [map_key_symbols]
    exact nodup_foldl_keepFirst _ nodup_nil
  · rw [map_key_symbols]
    exact (mem_keys_foldl (mem_keys_keepFirst DeclarationSite.key) _).mpr
      ⟨site, DeclarationSite.mem_all_iff.mpr hsite, rfl⟩
  · obtain ⟨site, hsite, hstands⟩ := Symbol.exists_site_of_mem hfirsts hs
    obtain ⟨line, -, -, hsymbol⟩ := (DeclarationSite.isFirst_of_mem_firsts hsite).isIn
    rw [hstands.kind] at hkind
    rw [hstands.name]
    exact Symbol.isIdentifier_of_mem_ofLine (mem_of_getElem? hsymbol) hkind

end SymbolTable
end KrlWorkbench
