import KrlWorkbench.Proofs.Text.LetterCase
import Mathlib.Data.List.DropRight

/-!
# Trimming and splitting

`dropEndWhile` is the library's `rdropWhile`, so a trimmed text is a piece of the text, trimming it
again changes nothing, and blanks in front of a text do not matter.  A text that is split is cut at
every character of a class, and only there.
-/

namespace KrlWorkbench.Text

open List

lemma dropEndWhile_eq_rdropWhile (p : Char → Bool) (a : Text) :
    dropEndWhile p a = a.rdropWhile p := by
  induction a with
  | nil => simp [dropEndWhile]
  | cons c rest ih =>
    rw [dropEndWhile, ih]
    -- Whether anything is left of `rest` decides whether `c` is looked at.
    cases hrest : rest.rdropWhile p with
    | nil =>
      have hall : rest.reverse.dropWhile p = [] := by
        simpa [List.rdropWhile] using hrest
      rw [List.rdropWhile, reverse_cons, dropWhile_append, hall]
      cases hc : p c <;> simp [hc]
    | cons d kept =>
      have hsome : rest.reverse.dropWhile p ≠ [] := by
        intro h
        simp [List.rdropWhile, h] at hrest
      rw [← hrest, List.rdropWhile, List.rdropWhile, reverse_cons, dropWhile_append]
      simp [hsome]

lemma trimStart_suffix (a : Text) : trimStart a <:+ a :=
  dropWhile_suffix _

lemma trimEnd_isPrefix (a : Text) : trimEnd a <+: a := by
  rw [trimEnd, dropEndWhile_eq_rdropWhile]
  exact rdropWhile_prefix _ _

lemma trim_prefix_trimStart (a : Text) : trim a <+: trimStart a :=
  trimEnd_isPrefix _

lemma trim_isInfix (a : Text) : trim a <:+: a :=
  (trim_prefix_trimStart a).isInfix.trans (trimStart_suffix a).isInfix

lemma trim_subset (a : Text) : trim a ⊆ a :=
  (trim_isInfix a).subset

lemma trimEnd_cons (c : Char) (a : Text) :
    trimEnd (c :: a) = if (trimEnd a).isEmpty && isBlank c then [] else c :: trimEnd a := by
  rw [trimEnd, dropEndWhile, trimEnd]
  cases dropEndWhile isBlank a with
  | nil => cases isBlank c <;> rfl
  | cons d kept => rfl

lemma trimEnd_append_of_solid {w : Text} (hw : ∀ c ∈ w, isBlank c = false) (a : Text) :
    trimEnd (w ++ a) = w ++ trimEnd a := by
  induction w with
  | nil => rfl
  | cons c w ih =>
    rw [cons_append, trimEnd_cons, hw c mem_cons_self, Bool.and_false,
      ih (forall_mem_cons.mp hw).2]
    rfl

lemma takeWhile_append_trimStart (a : Text) : a.takeWhile isBlank ++ trimStart a = a :=
  takeWhile_append_dropWhile

lemma takeWhile_isBlank_of_isPrefix {lead a : Text} (h : lead <+: a)
    (hsolid : trimStart lead ≠ []) : a.takeWhile isBlank = lead.takeWhile isBlank := by
  obtain ⟨rest, rfl⟩ := h
  rw [List.takeWhile_append, if_neg]
  intro hlen
  have hlead := congrArg List.length (takeWhile_append_trimStart lead)
  rw [length_append, hlen] at hlead
  exact hsolid (eq_nil_of_length_eq_zero (by omega))

lemma trimStart_eq_self_of_isPrefix {a b : Text} (hb : trimStart b = b) (h : a <+: b) :
    trimStart a = a := by
  cases a with
  | nil => rfl
  | cons c rest =>
    obtain ⟨tail, rfl⟩ := h
    rw [cons_append, trimStart, dropWhile_cons] at hb
    split at hb
    case isTrue =>
      -- A text does not stand behind its own first character.
      have hlen := congrArg List.length hb
      have hle := (dropWhile_suffix isBlank (l := rest ++ tail)).length_le
      simp only [length_cons] at hlen
      omega
    case isFalse hc => rw [trimStart, dropWhile_cons, if_neg hc]

@[simp] lemma trim_trim (a : Text) : trim (trim a) = trim a := by
  have hstart : trimStart (trim a) = trim a := by
    refine trimStart_eq_self_of_isPrefix (b := trimStart a) ?_ (trim_prefix_trimStart a)
    exact dropWhile_idempotent _ _
  rw [trim, hstart, trim, trimEnd, trimEnd, dropEndWhile_eq_rdropWhile,
    dropEndWhile_eq_rdropWhile, rdropWhile_idempotent]

lemma trim_append_of_blank {lead : Text} (h : ∀ c ∈ lead, isBlank c = true) (a : Text) :
    trim (lead ++ a) = trim a := by
  rw [trim, trimStart, dropWhile_append_of_pos h]
  rfl

lemma trimStart_upper (a : Text) : trimStart (upper a) = upper (trimStart a) :=
  dropWhile_upper isBlank_upperChar a

lemma dropEndWhile_upper {p : Char → Bool} (h : ∀ c, p (upperChar c) = p c) (a : Text) :
    dropEndWhile p (upper a) = upper (dropEndWhile p a) := by
  rw [dropEndWhile_eq_rdropWhile, dropEndWhile_eq_rdropWhile, List.rdropWhile, List.rdropWhile,
    ← upper_reverse, dropWhile_upper h, ← upper_reverse]

lemma trimEnd_upper (a : Text) : trimEnd (upper a) = upper (trimEnd a) :=
  dropEndWhile_upper isBlank_upperChar a

lemma trim_upper (a : Text) : trim (upper a) = upper (trim a) := by
  rw [trim, trimStart_upper, trimEnd_upper, trim]

/-- A text that differs from a trimmed one only in case is trimmed. -/
lemma trim_eq_self_of_upper_eq {a b : Text} (h : upper a = upper b) (ha : trim a = a) :
    trim b = b := by
  have hup : upper (trim b) = upper b := by
    rw [← trim_upper, ← h, trim_upper, ha]
  have hlen : (trim b).length = b.length := by
    rw [← length_upper, hup, length_upper]
  exact (trim_isInfix b).sublist.eq_of_length hlen

lemma head?_trim (a : Text) : (trim a).head? = a.find? (!isBlank ·) := by
  rw [find?_eq_head?_dropWhile_not, trim, trimStart]
  simp only [Bool.not_not]
  cases hstart : a.dropWhile isBlank with
  | nil => rfl
  | cons c rest =>
    have hc : isBlank c = false := by
      have hhead := head?_dropWhile_not isBlank a
      rw [hstart] at hhead
      simpa using hhead
    rw [trimEnd, dropEndWhile]
    split
    case h_1 => simp [hc]
    case h_2 => rfl

lemma head?_trim_of_isPrefix {lead a : Text} (h : lead <+: a) (hlead : allBlank lead = false) :
    (trim a).head? = (trim lead).head? ∧ trim a ≠ [] := by
  obtain ⟨rest, rfl⟩ := h
  have hsome : (lead.find? (!isBlank ·)).isSome = true := by
    simpa [allBlank] using hlead
  obtain ⟨c, hc⟩ := Option.isSome_iff_exists.mp hsome
  have hhead : (trim (lead ++ rest)).head? = some c := by
    rw [head?_trim, find?_append, hc, Option.some_or]
  refine ⟨by rw [hhead, head?_trim, hc], ?_⟩
  intro hnil
  rw [hnil] at hhead
  simp at hhead

/-! ## Splitting -/

section Splitting

variable {α : Type} {p : α → Bool}

lemma splitOn_ne_nil (p : α → Bool) (text : List α) : splitOn p text ≠ [] := by
  cases text with
  | nil => simp [splitOn]
  | cons c rest =>
    rw [splitOn]
    split
    · simp
    · split <;> simp

lemma not_of_mem_splitOn {text piece : List α} (h : piece ∈ splitOn p text) :
    ∀ c ∈ piece, p c = false := by
  induction text generalizing piece with
  | nil => simp_all [splitOn]
  | cons d rest ih =>
    rw [splitOn] at h
    split at h
    case h_1 hnil => exact absurd hnil (splitOn_ne_nil p rest)
    case h_2 first others hcut =>
      split at h
      case isTrue => grind
      case isFalse => grind

lemma splitOn_append_solid {piece rest first : List α} {others : List (List α)}
    (h : ∀ c ∈ piece, p c = false) (hcut : splitOn p rest = first :: others) :
    splitOn p (piece ++ rest) = (piece ++ first) :: others := by
  induction piece with
  | nil => exact hcut
  | cons d piece ih =>
    have hd : p d = false := h d (by simp)
    rw [cons_append, splitOn, ih fun e he => h e (mem_cons_of_mem d he)]
    simp [hd]

lemma splitOn_append_cons {piece : List α} (h : ∀ c ∈ piece, p c = false) {c : α} (hc : p c = true)
    (rest : List α) : splitOn p (piece ++ c :: rest) = piece :: splitOn p rest := by
  obtain ⟨first, others, hcut⟩ := exists_cons_of_ne_nil (splitOn_ne_nil p rest)
  have hrest : splitOn p (c :: rest) = [] :: splitOn p rest := by simp [splitOn, hcut, hc]
  rw [splitOn_append_solid h hrest, append_nil]

lemma splitOn_eq_singleton {piece : List α} (h : ∀ c ∈ piece, p c = false) :
    splitOn p piece = [piece] := by
  have hcut := splitOn_append_solid h (rfl : splitOn p [] = [[]])
  rwa [append_nil] at hcut

end Splitting

end KrlWorkbench.Text
