import KrlWorkbench.Symbol.Collect
import Mathlib.Data.List.Nodup
import Mathlib.Tactic.Tauto

/-!
# The keys of a symbol table

Of several declarations of one name a table keeps the first.  So the table loses declarations but
no name: its keys are the names that the lines declare, in upper case (`mem_declaredKeys_iff`).
-/

namespace KrlWorkbench

open List SymbolTable Text

variable {key : Text}

/-! ## Adding to a table -/

lemma Symbol.key_refine (old new : Symbol) : (refine old new).key = old.key := by
  rw [refine]
  split <;> rfl

lemma Symbol.mem_keys_add (s : Symbol) (found : List Symbol) :
    key ∈ (add s found).map (·.key) ↔ key = s.key ∨ key ∈ found.map (·.key) := by
  induction found with
  | nil => simp [add]
  | cons old rest ih =>
    rw [add]
    split
    case isTrue h =>
      rw [beq_iff_eq] at h
      simp [key_refine, h]
    case isFalse =>
      rw [map_cons, mem_cons, ih, map_cons, mem_cons]
      tauto

section KeepFirst

variable {α : Type} {keyOf : α → Text}

lemma mem_keys_foldl_add {add : List α → α → List α}
    (hadd : ∀ a found, key ∈ (add found a).map keyOf ↔ key = keyOf a ∨ key ∈ found.map keyOf)
    (items found : List α) :
    key ∈ (items.foldl add found).map keyOf ↔
      (∃ a ∈ items, keyOf a = key) ∨ key ∈ found.map keyOf := by
  induction items generalizing found with
  | nil => simp
  | cons a items ih =>
    rw [foldl_cons, ih, hadd, eq_comm]
    simp only [mem_cons, exists_eq_or_imp]
    exact or_left_comm.trans or_assoc.symm

lemma mem_keys_foldl {add : List α → α → List α}
    (hadd : ∀ a found, key ∈ (add found a).map keyOf ↔ key = keyOf a ∨ key ∈ found.map keyOf)
    (items : List α) : key ∈ (items.foldl add []).map keyOf ↔ ∃ a ∈ items, keyOf a = key := by
  simpa using mem_keys_foldl_add hadd items []

/-- Adds something unless its key is taken. -/
def keepFirst (keyOf : α → Text) (found : List α) (a : α) : List α :=
  if found.any fun old => keyOf old == keyOf a then found else found ++ [a]

lemma keepFirst_cons (b : α) (found : List α) (a : α) :
    keepFirst keyOf (b :: found) a =
      if keyOf b == keyOf a then b :: found else b :: keepFirst keyOf found a := by
  rw [keepFirst, keepFirst, any_cons]
  cases hb : keyOf b == keyOf a with
  | true => simp
  | false => cases found.any (fun old => keyOf old == keyOf a) <;> simp

lemma nodup_keepFirst {found : List α} (h : (found.map keyOf).Nodup) (a : α) :
    ((keepFirst keyOf found a).map keyOf).Nodup := by
  rw [keepFirst]
  split
  case isTrue => exact h
  case isFalse hfree =>
    rw [map_append, map_singleton, nodup_append]
    refine ⟨h, nodup_singleton _, fun key hkey key' hkey' => ?_⟩
    obtain ⟨old, hold, rfl⟩ := mem_map.mp hkey
    rw [mem_singleton.mp hkey']
    rintro heq
    exact hfree (any_eq_true.mpr ⟨old, hold, beq_iff_eq.mpr heq⟩)

/-- **No key is listed twice.** -/
lemma nodup_foldl_keepFirst (items : List α) {found : List α} (h : (found.map keyOf).Nodup) :
    ((items.foldl (keepFirst keyOf) found).map keyOf).Nodup := by
  induction items generalizing found with
  | nil => exact h
  | cons a items ih => exact ih (nodup_keepFirst h a)

/-- What is kept stands in its old order. -/
lemma exists_foldl_keepFirst_eq_append (items found : List α) :
    ∃ kept, items.foldl (keepFirst keyOf) found = found ++ kept ∧ kept.Sublist items := by
  induction items generalizing found with
  | nil => exact ⟨[], by simp, .refl []⟩
  | cons a items ih =>
    rw [foldl_cons, keepFirst]
    split
    · obtain ⟨kept, heq, hkept⟩ := ih found
      exact ⟨kept, heq, hkept.cons a⟩
    · obtain ⟨kept, heq, hkept⟩ := ih (found ++ [a])
      exact ⟨a :: kept, by rw [heq, append_assoc, singleton_append], hkept.cons_cons a⟩

lemma foldl_keepFirst_sublist (items : List α) :
    (items.foldl (keepFirst keyOf) []).Sublist items := by
  obtain ⟨kept, heq, hkept⟩ :
      ∃ kept, items.foldl (keepFirst keyOf) [] = [] ++ kept ∧ kept.Sublist items :=
    exists_foldl_keepFirst_eq_append items []
  rwa [heq, nil_append]

lemma mem_keys_keepFirst (keyOf : α → Text) (a : α) (found : List α) :
    key ∈ (keepFirst keyOf found a).map keyOf ↔ key = keyOf a ∨ key ∈ found.map keyOf := by
  rw [keepFirst]
  split
  case isTrue h =>
    obtain ⟨old, hold, hkey⟩ := any_eq_true.mp h
    have hmem : keyOf a ∈ found.map keyOf := by
      rw [← beq_iff_eq.mp hkey]
      exact mem_map_of_mem hold
    constructor
    · exact .inr
    · rintro (rfl | h)
      · exact hmem
      · exact h
  case isFalse =>
    rw [map_append, mem_append, or_comm]
    simp

/-- Of those with one key the first stays, and no other is added. -/
lemma find?_foldl_keepFirst (keyOf : α → Text) (key : Text) (items found : List α) :
    (items.foldl (keepFirst keyOf) found).find? (keyOf · == key) =
      (found.find? (keyOf · == key)).or (items.find? (keyOf · == key)) := by
  induction items generalizing found with
  | nil => simp
  | cons a items ih =>
    rw [foldl_cons, ih, find?_cons, keepFirst]
    split
    case isTrue htaken =>
      -- If `a` has the key, so has what took its place.
      cases hkey : keyOf a == key with
      | false => rfl
      | true =>
        obtain ⟨old, hold, hsame⟩ := any_eq_true.mp htaken
        have hsome : (found.find? (keyOf · == key)).isSome = true := by
          rw [find?_isSome]
          exact ⟨old, hold, by rwa [← beq_iff_eq.mp hkey]⟩
        obtain ⟨first, hfirst⟩ := Option.isSome_iff_exists.mp hsome
        rw [hfirst, Option.some_or, Option.some_or]
    case isFalse =>
      rw [find?_append, find?_singleton, Option.or_assoc]
      cases keyOf a == key <;> simp

lemma foldl_map_map (up : α → α) {step : List α → α → List α}
    (h : ∀ found x, step (found.map up) (up x) = (step found x).map up) (entries : List α) :
    (entries.map up).foldl step [] = (entries.foldl step []).map up := by
  have hfold : entries.foldl (fun found x => step found (up x)) (([] : List α).map up) =
      (entries.foldl step []).map up := foldl_hom (List.map up) h
  rw [foldl_map]
  exact hfold

/-- A change that keeps the keys keeps which ones come first. -/
lemma foldl_keepFirst_map {f : α → α} (hf : ∀ a, keyOf (f a) = keyOf a) (items : List α) :
    (items.map f).foldl (keepFirst keyOf) [] = (items.foldl (keepFirst keyOf) []).map f := by
  refine foldl_map_map f (fun found a => ?_) items
  simp only [keepFirst, any_map, Function.comp_def, hf, apply_ite (List.map f), map_append,
    map_singleton]

end KeepFirst

lemma TypeDefinition.keysOf_eq_map_key (lines : List Text) :
    keysOf lines = (lines.filterMap (ofLine? [])).map (·.key) := by
  rw [keysOf, map_filterMap]
  congr 1
  funext line
  rw [ofLine?, Option.map_map]
  rfl

/-! ## What lines declare -/

namespace SymbolTable

lemma mem_codeLines_iff {text code : Text} {number : Nat} :
    (number, code) ∈ codeLines text ↔ ∃ line, text.lines[number]? = some line ∧
      Code.codePart line = code ∧ allBlank code = false := by
  rw [codeLines, mem_filter, mem_map]
  constructor
  · rintro ⟨⟨⟨line, i⟩, hmem, heq⟩, hblank⟩
    obtain ⟨rfl, rfl⟩ := Prod.mk.inj heq
    exact ⟨line, mk_mem_zipIdx_iff_getElem?.mp hmem, rfl, by simpa using hblank⟩
  · rintro ⟨line, hline, rfl, hblank⟩
    exact ⟨⟨⟨line, number⟩, mk_mem_zipIdx_iff_getElem?.mpr hline, rfl⟩, by simp [hblank]⟩

end SymbolTable

/-- A line of the document declares the name. -/
inductive Declares (text : Text) : Text → Prop
  | symbol {line : Nat} {code : Text} {s : Symbol} (h : (line, code) ∈ codeLines text)
      (hs : s ∈ Symbol.ofLine text (TypeDefinition.keysOf text.lines) line code) :
      Declares text s.name
  | routine {line : Nat} {code : Text} {r : Routine}
      (h : (line, code) ∈ codeLines text)
      (hr : Routine.ofHeader? text code line = some r) : Declares text r.name
  | type {line : Text} {found : Match} (h : line ∈ text.lines)
      (hfound : LineRule.typeDefinition.find? (Code.codePart line) = some found) :
      Declares text (found.text 4)

/-- **No name is lost.**  The keys of a document's table are the names its lines declare. -/
theorem mem_declaredKeys_iff {text : Text} :
    key ∈ (collect text).declaredKeys ↔ ∃ n, Declares text n ∧ upper n = key := by
  have hsymbols : ∀ symbols : List Symbol,
      key ∈ (symbols.foldl (fun found s => s.add found) []).map (·.key) ↔
        ∃ s ∈ symbols, s.key = key :=
    mem_keys_foldl Symbol.mem_keys_add
  have hroutines : ∀ routines : List Routine,
      key ∈ (routines.foldl Routine.addFirst []).map (·.key) ↔ ∃ r ∈ routines, r.key = key :=
    mem_keys_foldl (mem_keys_keepFirst Routine.key)
  have htypes : ∀ types : List TypeDefinition,
      key ∈ (types.foldl TypeDefinition.addFirst []).map (·.key) ↔ ∃ d ∈ types, d.key = key :=
    mem_keys_foldl (mem_keys_keepFirst TypeDefinition.key)
  rw [declaredKeys, mem_append, mem_append]
  simp only [collect, TypeDefinition.collect, hsymbols, hroutines, htypes]
  constructor
  · rintro ((⟨s, hs, rfl⟩ | ⟨r, hr, rfl⟩) | ⟨d, hd, rfl⟩)
    · obtain ⟨⟨line, code⟩, hline, hs⟩ := mem_flatMap.mp hs
      exact ⟨s.name, .symbol hline hs, rfl⟩
    · obtain ⟨⟨line, code⟩, hline, hr⟩ := mem_filterMap.mp hr
      exact ⟨r.name, .routine hline hr, rfl⟩
    · obtain ⟨line, hline, hd⟩ := mem_filterMap.mp hd
      obtain ⟨found, hfound, rfl⟩ := Option.map_eq_some_iff.mp hd
      exact ⟨_, .type hline hfound, rfl⟩
  · rintro ⟨n, hn, rfl⟩
    cases hn with
    | @symbol line code s hline hs =>
      exact .inl (.inl ⟨s, mem_flatMap.mpr ⟨(line, code), hline, hs⟩, rfl⟩)
    | @routine line code r hline hr =>
      exact .inl (.inr ⟨r, mem_filterMap.mpr ⟨(line, code), hline, hr⟩, rfl⟩)
    | @type line found hline hfound =>
      have hd : ∃ d,
          TypeDefinition.ofLine? ([] ++ TypeDefinition.keysOf text.lines) line = some d ∧
          d.key = upper (found.text 4) := by
        rw [TypeDefinition.ofLine?, hfound]
        exact ⟨_, rfl, rfl⟩
      obtain ⟨d, hd, hkey⟩ := hd
      exact .inr ⟨d, mem_filterMap.mpr ⟨line, hline, hd⟩, hkey⟩

end KrlWorkbench
