import KrlWorkbench.Uri.Map
import Mathlib.Data.List.Basic
import Mathlib.Data.List.Nodup

/-!
# Listings of a map

A map of URIs is what it holds under each spelling; a listing writes that out in some order.  Two
listings of one map differ only in their order (`Lists.perm`), so they are the same once they are
sorted by URI (`Lists.mergeSort_eq`), and a search of the sorted listing finds what the least URI
has to offer (`Lists.findSome?_mergeSort`).  Nothing here knows in which order a map came to its
entries.
-/

namespace KrlWorkbench

open List Text

/-! ## Orders on lists -/

/-- Any two members are comparable, and they precede each other only if they are equal. -/
structure IsOrder {α : Type} (le : α → α → Bool) : Prop where
  trans : ∀ {a b c}, le a b = true → le b c = true → le a c = true
  total : ∀ a b, le a b = true ∨ le b a = true
  antisymm : ∀ {a b}, le a b = true → le b a = true → a = b

variable {α β : Type}

lemma isOrder_of_injective {number : α → Nat} (h : Function.Injective number) :
    IsOrder fun a b => decide (number a ≤ number b) where
  trans hab hbc := decide_eq_true (Nat.le_trans (of_decide_eq_true hab) (of_decide_eq_true hbc))
  total a b := by
    rw [decide_eq_true_iff, decide_eq_true_iff]
    exact Nat.le_total _ _
  antisymm hab hba := h (Nat.le_antisymm (of_decide_eq_true hab) (of_decide_eq_true hba))

/-- Lists are ordered if their members are. -/
lemma IsOrder.leLists [BEq α] [LawfulBEq α] {le : α → α → Bool} (h : IsOrder le) :
    IsOrder (Text.leLists le) where
  trans {a b c} hab hbc := by
    -- Equal members are dropped; the first that differ decide.
    induction a generalizing b c with
    | nil => rfl
    | cons x a ih =>
      cases b with
      | nil => cases hab
      | cons y b =>
        cases c with
        | nil => cases hbc
        | cons z c =>
          simp only [Text.leLists, beq_iff_eq] at hab hbc ⊢
          have hxyz := @h.trans x y z
          have hxy := @h.antisymm x y
          grind
  total a b := by
    induction a generalizing b with
    | nil => exact .inl rfl
    | cons x a ih =>
      cases b with
      | nil => exact .inr rfl
      | cons y b =>
        have hxy := h.total x y
        simp only [Text.leLists, beq_iff_eq]
        grind
  antisymm {a b} hab hba := by
    induction a generalizing b with
    | nil =>
      cases b with
      | nil => rfl
      | cons y b => cases hba
    | cons x a ih =>
      cases b with
      | nil => cases hab
      | cons y b =>
        have hxy := @h.antisymm x y
        simp only [Text.leLists, beq_iff_eq] at hab hba
        grind

/-! ## The order of URIs -/

namespace Uri

lemma isOrder_leText : IsOrder (leLists fun c d : Char => c.toNat ≤ d.toNat) :=
  (isOrder_of_injective fun _ _ => Char.toNat_inj.mp).leLists

lemma le_trans {u v w : Uri} (huv : u.le v = true) (hvw : v.le w = true) : u.le w = true :=
  isOrder_leText.trans huv hvw

lemma le_total (u v : Uri) : (u.le v || v.le u) = true := by
  rw [Bool.or_eq_true]
  exact isOrder_leText.total u.text v.text

@[simp] lemma le_refl (u : Uri) : u.le u = true := by
  simpa using le_total u u

lemma text_eq_of_le {u v : Uri} (huv : u.le v = true) (hvu : v.le u = true) : u.text = v.text :=
  isOrder_leText.antisymm huv hvu

end Uri

/-! ## Listings -/

/-- The list holds the entries that stand under some spelling, each once. -/
structure Lists (entries : List (Uri × α)) (held : Text → Option (Uri × α)) : Prop where
  distinct : (entries.map fun e => e.1.text).Nodup
  find? : ∀ spelling, entries.find? (fun e => e.1.text == spelling) = held spelling

lemma UriMap.lists_entries (m : UriMap α) : Lists m.entries m.find? :=
  ⟨m.distinct, fun _ => rfl⟩

namespace Lists

variable {entries entries' : List (Uri × α)} {held : Text → Option (Uri × α)}

lemma eq_of_text_eq (h : Lists entries held) {e e' : Uri × α} (he : e ∈ entries)
    (he' : e' ∈ entries) (htext : e.1.text = e'.1.text) : e = e' :=
  inj_on_of_nodup_map h.distinct he he' htext

lemma mem_iff (h : Lists entries held) {e : Uri × α} : e ∈ entries ↔ held e.1.text = some e := by
  rw [← h.find?]
  constructor
  · intro he
    obtain ⟨e', he'⟩ : ∃ e', entries.find? (fun e' => e'.1.text == e.1.text) = some e' := by
      rw [← Option.isSome_iff_exists, find?_isSome]
      exact ⟨e, he, by simp⟩
    have htext : e'.1.text = e.1.text := by simpa using find?_some he'
    rw [he', h.eq_of_text_eq (mem_of_find?_eq_some he') he htext]
  · exact mem_of_find?_eq_some

/-- **Listings of one map** differ in their order only. -/
lemma perm (h : Lists entries held) (h' : Lists entries' held) : entries.Perm entries' := by
  rw [perm_ext_iff_of_nodup (List.Nodup.of_map _ h.distinct) (List.Nodup.of_map _ h'.distinct)]
  intro e
  rw [h.mem_iff, h'.mem_iff]

lemma pairwise_mergeSort (entries : List (Uri × α)) :
    (entries.mergeSort fun a b => a.1.le b.1).Pairwise fun a b => a.1.le b.1 = true := by
  apply List.pairwise_mergeSort
  · intro a b c
    exact Uri.le_trans
  · intro a b
    exact Uri.le_total a.1 b.1

/-- Sorted by URI, listings of one map are the same. -/
lemma mergeSort_eq (h : Lists entries held) (h' : Lists entries' held) :
    (entries.mergeSort fun a b => a.1.le b.1) = entries'.mergeSort fun a b => a.1.le b.1 := by
  refine List.Perm.eq_of_pairwise ?_ (pairwise_mergeSort entries) (pairwise_mergeSort entries') ?_
  · intro a b ha hb hab hba
    have ha' : a ∈ entries := mem_mergeSort.mp ha
    have hb' : b ∈ entries := (h.perm h').mem_iff.mpr (mem_mergeSort.mp hb)
    exact h.eq_of_text_eq ha' hb' (Uri.text_eq_of_le hab hba)
  · exact (mergeSort_perm entries _).trans
      ((h.perm h').trans (mergeSort_perm entries' _).symm)

/-- **The least URI goes first.**  A search of the sorted listing finds what the entry of the least
URI has, among those entries that have anything. -/
lemma findSome?_mergeSort (h : Lists entries held) (f : Uri × α → Option β) {b : β} :
    (entries.mergeSort fun a b => a.1.le b.1).findSome? f = some b ↔
      ∃ e ∈ entries, f e = some b ∧ ∀ e' ∈ entries, (f e').isSome = true → e.1.le e'.1 = true := by
  have hsorted := pairwise_mergeSort entries
  have hmem : ∀ e, e ∈ (entries.mergeSort fun a b => a.1.le b.1) ↔ e ∈ entries := fun e =>
    mem_mergeSort
  rw [findSome?_eq_some_iff]
  constructor
  · rintro ⟨front, e, back, hsplit, hfound, hfront⟩
    rw [hsplit] at hsorted hmem
    refine ⟨e, (hmem e).mp (by simp), hfound, ?_⟩
    intro e' he' hsome
    rcases mem_append.mp ((hmem e').mpr he') with hbefore | hbehind
    · simp [hfront e' hbefore] at hsome
    · rcases mem_cons.mp hbehind with rfl | hbehind
      · exact e'.1.le_refl
      · exact (pairwise_cons.mp (pairwise_append.mp hsorted).2.1).1 e' hbehind
  · rintro ⟨e, he, hfound, hleast⟩
    obtain ⟨front, back, hsplit⟩ := append_of_mem ((hmem e).mpr he)
    refine ⟨front, e, back, hsplit, hfound, ?_⟩
    -- An entry in front of `e` with anything to find would have the URI of `e`, but `e` comes once.
    intro e' he'
    by_contra hsome
    rw [hsplit] at hsorted hmem
    have hin : e' ∈ entries := (hmem e').mp (mem_append_left _ he')
    have hle : e'.1.le e.1 = true := (pairwise_append.mp hsorted).2.2 e' he' e (by simp)
    have hge := hleast e' hin (Option.isSome_iff_ne_none.mpr hsome)
    obtain rfl := h.eq_of_text_eq hin he (Uri.text_eq_of_le hle hge)
    have hnodup : (entries.mergeSort fun a b => a.1.le b.1).Nodup :=
      (mergeSort_perm entries _).nodup_iff.mpr (List.Nodup.of_map _ h.distinct)
    rw [hsplit, nodup_append] at hnodup
    exact hnodup.2.2 e' he' e' (by simp) rfl

end Lists

lemma UriMap.get?_eq_some_iff {m : UriMap α} {u : Uri} {a : α} :
    m.get? u = some a ↔ ∃ v, (v, a) ∈ m.entries ∧ v.text = u.text := by
  rw [get?, Option.map_eq_some_iff]
  constructor
  · rintro ⟨⟨v, a⟩, hfound, rfl⟩
    exact ⟨v, mem_of_find?_eq_some hfound, by simpa using find?_some hfound⟩
  · rintro ⟨v, hmem, htext⟩
    exact ⟨(v, a), htext ▸ m.lists_entries.mem_iff.mp hmem, rfl⟩

end KrlWorkbench
