import KrlWorkbench.Uri.Basic

/-!
# Values under URIs

Texts, tables and counts of documents are kept under the documents' URIs.  Two URIs are the same
key when they are spelled the same, whatever parts the spelling was read from, and a map never
holds two entries of one spelling: the type carries that.

What a map holds under a spelling is `find?`.  The order of the entries is no part of it.
-/

namespace KrlWorkbench

open Text

/-- Values under URIs, one for each spelling. -/
structure UriMap (α : Type) where
  entries : List (Uri × α)
  /-- No two URIs are spelled the same. -/
  distinct : (entries.map fun e => e.1.text).Nodup
  deriving DecidableEq, Repr

namespace UriMap

variable {α : Type}

def empty : UriMap α :=
  ⟨[], List.Pairwise.nil⟩

instance : Inhabited (UriMap α) := ⟨empty⟩

/-! ## Looking up -/

/-- The entry under a spelling. -/
def find? (m : UriMap α) (spelling : Text) : Option (Uri × α) :=
  m.entries.find? fun e => e.1.text == spelling

/-- The value under a URI, by its spelling. -/
def get? (m : UriMap α) (u : Uri) : Option α :=
  (m.find? u.text).map (·.2)

def contains (m : UriMap α) (u : Uri) : Bool :=
  (m.find? u.text).isSome

def size (m : UriMap α) : Nat :=
  m.entries.length

/-! ## Changing -/

/-- Puts an entry in the place of the one of the same spelling, or behind all others. -/
def putEntry (entry : Uri × α) : List (Uri × α) → List (Uri × α)
  | [] => [entry]
  | old :: rest =>
    if old.1.text = entry.1.text then entry :: rest else old :: putEntry entry rest

theorem mem_spellings_putEntry {entry : Uri × α} {entries : List (Uri × α)} {spelling : Text} :
    spelling ∈ (putEntry entry entries).map (fun e => e.1.text) ↔
      spelling = entry.1.text ∨ spelling ∈ entries.map fun e => e.1.text := by
  induction entries with
  | nil => simp [putEntry]
  | cons old rest ih =>
    rw [putEntry]
    split
    case isTrue h => simp [h]
    case isFalse =>
      rw [List.map_cons, List.mem_cons, ih, List.map_cons, List.mem_cons, or_left_comm]

theorem nodup_putEntry (entry : Uri × α) {entries : List (Uri × α)}
    (h : (entries.map fun e => e.1.text).Nodup) :
    ((putEntry entry entries).map fun e => e.1.text).Nodup := by
  induction entries with
  | nil => simp [putEntry]
  | cons old rest ih =>
    rw [List.map_cons, List.nodup_cons] at h
    rw [putEntry]
    split
    case isTrue hsame =>
      rw [List.map_cons, List.nodup_cons, ← hsame]
      exact h
    case isFalse hother =>
      rw [List.map_cons, List.nodup_cons, mem_spellings_putEntry]
      refine ⟨?_, ih h.2⟩
      rintro (hsame | hmem)
      · exact hother hsame
      · exact h.1 hmem

def insert (m : UriMap α) (u : Uri) (a : α) : UriMap α where
  entries := putEntry (u, a) m.entries
  distinct := nodup_putEntry (u, a) m.distinct

def erase (m : UriMap α) (u : Uri) : UriMap α where
  entries := m.entries.filter fun e => e.1.text != u.text
  distinct := m.distinct.sublist (List.filter_sublist.map _)

/-! ## What changing does to looking up -/

theorem find?_putEntry (entry : Uri × α) (entries : List (Uri × α)) (spelling : Text) :
    (putEntry entry entries).find? (fun e => e.1.text == spelling) =
      if spelling = entry.1.text then some entry
      else entries.find? fun e => e.1.text == spelling := by
  induction entries with
  | nil =>
    by_cases h : spelling = entry.1.text
    · simp [putEntry, h]
    · simp [putEntry, h, Ne.symm h]
  | cons old rest ih =>
    rw [putEntry]
    by_cases h : spelling = entry.1.text
    · subst h
      by_cases hold : old.1.text = entry.1.text
      · simp [hold]
      · simpa [hold] using ih
    · rw [if_neg h] at ih ⊢
      by_cases hold : old.1.text = entry.1.text
      · simp [hold, Ne.symm h]
      · simp [hold, List.find?_cons, ih]

theorem find?_insert (m : UriMap α) (u : Uri) (a : α) (spelling : Text) :
    (m.insert u a).find? spelling =
      if spelling = u.text then some (u, a) else m.find? spelling :=
  find?_putEntry (u, a) m.entries spelling

theorem find?_erase (m : UriMap α) (u : Uri) (spelling : Text) :
    (m.erase u).find? spelling = if spelling = u.text then none else m.find? spelling := by
  rw [erase, find?, List.find?_filter]
  by_cases h : spelling = u.text
  · subst h
    simp
  · rw [if_neg h, find?]
    congr 1
    funext e
    by_cases he : e.1.text = spelling
    · simp [he, h]
    · simp [he]

theorem get?_insert (m : UriMap α) (u : Uri) (a : α) (v : Uri) :
    (m.insert u a).get? v = if v.text = u.text then some a else m.get? v := by
  rw [get?, find?_insert]
  split <;> rfl

theorem get?_erase (m : UriMap α) (u v : Uri) :
    (m.erase u).get? v = if v.text = u.text then none else m.get? v := by
  rw [get?, find?_erase]
  split <;> rfl

end UriMap
end KrlWorkbench
