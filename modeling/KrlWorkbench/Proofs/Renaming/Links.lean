import KrlWorkbench.Proofs.Code.Clean
import KrlWorkbench.Proofs.Text.Words

/-!
# Texts that differ in some of their words

A text is a sequence of words, which are maximal runs of word characters, and of characters that
belong to no word.  Renaming replaces words and leaves the rest alone, so an old text and the new
one are best compared word by word.  A `Link` pairs a piece of the old text with its counterpart;
`Aligned` says that a list of links is such a comparison, in which a word is either kept or equals
the name `x` up to case and becomes `y`.

Which words are replaced depends on where they stand: not in a string, and not behind a dollar sign
or a point.  `Thorough` says that exactly those words equal to `x` are replaced.  `Renamed` relates
two texts through aligned and thorough links.  Every text has a renamed one (`exists_links`), and a
word that makes up a whole text becomes what `rename` says (`Renamed.eq_rename`).
-/

namespace KrlWorkbench

open List Code Text

variable {w x y : Text}

/-! ## Links -/

/-- A character outside words, or a word and what stands in its place. -/
inductive Link where
  | sep (c : Char)
  | word (old new : Text)
  deriving DecidableEq, Repr

namespace Link

/-- What the old text holds. -/
def old : Link → Text
  | .sep c => [c]
  | .word w _ => w

/-- What the new text holds. -/
def new : Link → Text
  | .sep c => [c]
  | .word _ w' => w'

/-- Whether the link is a word. -/
def isWord : Link → Bool
  | .sep _ => false
  | .word _ _ => true

end Link

/-- The old side of some links. -/
def oldText (links : List Link) : Text :=
  links.flatMap Link.old

/-- The new side of some links. -/
def newText (links : List Link) : Text :=
  links.flatMap Link.new

/-- The links compare a text with one in which some words that equal `x` up to case are `y`. -/
inductive Aligned (x y : Text) : List Link → Prop
  | nil : Aligned x y []
  | sep {c : Char} {links : List Link} (hc : isWordChar c = false) (h : Aligned x y links) :
      Aligned x y (.sep c :: links)
  | word {w w' : Text} {links : List Link} (hw : IsWord w)
      (hnew : w' = w ∨ sameWord x w = true ∧ w' = y)
      (hnext : links.head?.any Link.isWord = false) (h : Aligned x y links) :
      Aligned x y (.word w w' :: links)

@[simp] lemma oldText_nil : oldText [] = [] := rfl
@[simp] lemma newText_nil : newText [] = [] := rfl

@[simp] lemma oldText_append (l l' : List Link) : oldText (l ++ l') = oldText l ++ oldText l' :=
  flatMap_append
@[simp] lemma newText_append (l l' : List Link) : newText (l ++ l') = newText l ++ newText l' :=
  flatMap_append

@[simp] lemma oldText_sep (c : Char) (l : List Link) : oldText (.sep c :: l) = c :: oldText l := rfl
@[simp] lemma newText_sep (c : Char) (l : List Link) : newText (.sep c :: l) = c :: newText l := rfl

@[simp] lemma oldText_word (w w' : Text) (l : List Link) :
    oldText (.word w w' :: l) = w ++ oldText l := rfl
@[simp] lemma newText_word (w w' : Text) (l : List Link) :
    newText (.word w w' :: l) = w' ++ newText l := rfl

namespace Aligned

variable {x y : Text} {links l l' : List Link}

lemma append_left (h : Aligned x y (l ++ l')) : Aligned x y l := by
  induction l with
  | nil => exact .nil
  | cons link l ih =>
    cases h with
    | sep hc h => exact .sep hc (ih h)
    | word hw hnew hnext h =>
      refine .word hw hnew ?_ (ih h)
      cases l with
      | nil => rfl
      | cons => exact hnext

lemma append_right (h : Aligned x y (l ++ l')) : Aligned x y l' := by
  induction l with
  | nil => exact h
  | cons link l ih =>
    cases h with
    | sep _ h => exact ih h
    | word _ _ _ h => exact ih h

lemma isWord_new {w' : Text} (hy : IsWord y) (hw : IsWord w)
    (hnew : w' = w ∨ sameWord x w = true ∧ w' = y) : IsWord w' := by
  rcases hnew with rfl | ⟨-, rfl⟩
  · exact hw
  · exact hy

lemma startsWord_old (h : Aligned x y links) :
    startsWord (oldText links) = links.head?.any Link.isWord := by
  cases h with
  | nil => rfl
  | sep hc => simpa [Link.isWord] using hc
  | word hw => exact hw.startsWord_append _

lemma startsWord_new (hy : IsWord y) (h : Aligned x y links) :
    startsWord (newText links) = links.head?.any Link.isWord := by
  cases h with
  | nil => rfl
  | sep hc => simpa [Link.isWord] using hc
  | word hw hnew => exact (isWord_new hy hw hnew).startsWord_append _

lemma isEmpty_oldText (h : Aligned x y links) : (oldText links).isEmpty = links.isEmpty := by
  cases h with
  | nil => rfl
  | sep => rfl
  | word hw => simp [hw.ne_nil]

lemma isEmpty_newText (hy : IsWord y) (h : Aligned x y links) :
    (newText links).isEmpty = links.isEmpty := by
  cases h with
  | nil => rfl
  | sep => rfl
  | word hw hnew => simp [(isWord_new hy hw hnew).ne_nil]

lemma eq_singleton (h : Aligned x y links) (hne : links ≠ [])
    (hsep : ∀ c, isWordChar c = false → Link.sep c ∉ links) :
    ∃ w w', links = [.word w w'] ∧ IsWord w := by
  cases h with
  | nil => exact absurd rfl hne
  | @sep c links hc => exact absurd mem_cons_self (hsep c hc)
  | @word w w' links hw hnew hnext h =>
    cases h with
    | nil => exact ⟨w, w', rfl, hw⟩
    | @sep c links hc => exact absurd (by simp) (hsep c hc)
    | word => simp [Link.isWord] at hnext

end Aligned

/-! ## Which words are replaced -/

/-- A character that takes the name behind it for its own. -/
def owns (c : Char) : Bool :=
  c == '$' || c == '.'

/-- Exactly the words equal to `x` that stand free are replaced; `inside` tells whether a string
is open in front of the links and `owned` whether an owner stands there. -/
def Thorough (x y : Text) : Bool → Bool → List Link → Prop
  | _, _, [] => True
  | inside, _, .sep c :: links => Thorough x y (insideAfter inside [c]) (owns c) links
  | inside, owned, .word w w' :: links =>
    w' = (if !inside && !owned && sameWord x w then y else w) ∧ Thorough x y inside false links

/-- Every text is the old side of aligned links that are thorough. -/
theorem exists_links (x y : Text) (inside owned : Bool) (text : Text) :
    ∃ links, Aligned x y links ∧ oldText links = text ∧ Thorough x y inside owned links := by
  -- On the length, since a whole word is taken off at once.
  induction hlen : text.length using Nat.strongRecOn generalizing text inside owned with
  | ind n ih =>
    cases text with
    | nil => exact ⟨[], .nil, rfl, trivial⟩
    | cons c rest =>
      cases hc : isWordChar c with
      | false =>
        obtain ⟨links, haligned, hold, hthorough⟩ :=
          ih rest.length (by simp [← hlen]) (insideAfter inside [c]) (owns c) rest rfl
        exact ⟨.sep c :: links, .sep hc haligned, by simp [hold], hthorough⟩
      | true =>
        have hshort : (rest.dropWhile isWordChar).length < n := by
          have hle := (dropWhile_suffix isWordChar (l := rest)).length_le
          simp only [length_cons] at hlen
          omega
        obtain ⟨links, haligned, hold, hthorough⟩ :=
          ih _ hshort inside false (rest.dropWhile isWordChar) rfl
        have hnext : links.head?.any Link.isWord = false := by
          rw [← haligned.startsWord_old, hold]
          exact startsWord_dropWhile rest
        refine ⟨.word (c :: rest.takeWhile isWordChar) _ :: links,
          .word (isWord_cons_takeWhile hc rest) ?_ hnext haligned, ?_, rfl, hthorough⟩
        · split
          case isTrue h =>
            rw [Bool.and_eq_true] at h
            exact .inr ⟨h.2, rfl⟩
          case isFalse => exact .inl rfl
        · simp [hold]

/-! ## Before and after a piece -/

lemma ne_of_isWordChar {c d : Char} (hd : isWordChar d = false) (hc : isWordChar c = true) :
    c ≠ d := by
  rintro rfl
  simp [hd] at hc

lemma owns_of_isWordChar {c : Char} (h : isWordChar c = true) : owns c = false := by
  rw [owns, Bool.or_eq_false_iff, beq_eq_false_iff_ne, beq_eq_false_iff_ne]
  exact ⟨ne_of_isWordChar (by decide) h, ne_of_isWordChar (by decide) h⟩

lemma insideAfter_word (hw : ∀ c ∈ w, isWordChar c = true) (inside : Bool) (rest : Text) :
    insideAfter inside (w ++ rest) = insideAfter inside rest := by
  induction w with
  | nil => rfl
  | cons c w ih =>
    have hc : c ≠ '"' := ne_of_isWordChar (by decide) (hw c mem_cons_self)
    rw [cons_append, insideAfter_cons, if_neg (by simpa using hc)]
    exact ih (forall_mem_cons.mp hw).2

/-- Whether an owner stands behind `a`, when `owned` tells whether one stands before it. -/
def ownedAfter (owned : Bool) (a : Text) : Bool :=
  a.getLast?.elim owned owns

@[simp] lemma ownedAfter_nil (owned : Bool) : ownedAfter owned [] = owned := rfl

lemma ownedAfter_cons (owned : Bool) (c : Char) (a : Text) :
    ownedAfter owned (c :: a) = ownedAfter (owns c) a := by
  rw [ownedAfter, ownedAfter, getLast?_cons]
  cases a.getLast? <;> rfl

lemma ownedAfter_append (owned : Bool) (a b : Text) :
    ownedAfter owned (a ++ b) = ownedAfter (ownedAfter owned a) b := by
  induction a generalizing owned with
  | nil => rfl
  | cons c a ih => rw [cons_append, ownedAfter_cons, ownedAfter_cons, ih]

lemma ownedAfter_word (hw : IsWord w) (owned : Bool) (a : Text) :
    ownedAfter owned (w ++ a) = ownedAfter false a := by
  cases a with
  | nil =>
    rw [append_nil, ownedAfter, getLast?_eq_some_getLast hw.ne_nil]
    exact owns_of_isWordChar (hw.chars _ (getLast_mem hw.ne_nil))
  | cons c a => rw [ownedAfter, ownedAfter, getLast?_append_of_ne_nil _ (by simp)]; rfl

lemma ownedAfter_eq_true {owned : Bool} {u : Text} (h : ownedAfter owned u = true) :
    u = [] ∧ owned = true ∨ '$' ∈ u ∨ '.' ∈ u := by
  cases hlast : u.getLast? with
  | none =>
    obtain rfl := getLast?_eq_none_iff.mp hlast
    exact .inl ⟨rfl, h⟩
  | some c =>
    have hc : c ∈ u := mem_of_getLast? hlast
    rw [ownedAfter, hlast] at h
    have howns : owns c = true := h
    rw [owns, Bool.or_eq_true, beq_iff_eq, beq_iff_eq] at howns
    rcases howns with rfl | rfl
    · exact .inr (.inl hc)
    · exact .inr (.inr hc)

/-- Links are thorough if their parts are, each from what stands before it. -/
lemma thorough_append {l l' : List Link} (h : Aligned x y l) {inside owned : Bool} :
    Thorough x y inside owned (l ++ l') ↔ Thorough x y inside owned l ∧
      Thorough x y (insideAfter inside (oldText l)) (ownedAfter owned (oldText l)) l' := by
  induction h generalizing inside owned with
  | nil => simp [Thorough]
  | @sep c l hc h ih =>
    rw [cons_append, Thorough, Thorough, ih, oldText_sep, ownedAfter_cons]
    rfl
  | @word w w' l hw hnew hnext h ih =>
    rw [cons_append, Thorough, Thorough, ih, oldText_word, ownedAfter_word hw,
      insideAfter_word hw.chars, and_assoc]

/-! ## Renamed texts -/

/-- What becomes of a name that stands free. -/
def rename (x y w : Text) : Text :=
  if sameWord x w then y else w

/-- The new text is the old one with `y` for the uses of `x`. -/
def Renamed (x y old new : Text) : Prop :=
  ∃ links, Aligned x y links ∧ Thorough x y false false links ∧
    oldText links = old ∧ newText links = new

namespace Renamed

variable {x y u u' : Text}

lemma eq_rename_of_links {links : List Link} (haligned : Aligned x y links)
    (hthorough : Thorough x y false false links) (hne : links ≠ [])
    (hsep : ∀ c, isWordChar c = false → Link.sep c ∉ links) :
    IsWord (oldText links) ∧ newText links = rename x y (oldText links) := by
  obtain ⟨w, w', rfl, hw⟩ := haligned.eq_singleton hne hsep
  obtain ⟨hw', -⟩ := hthorough
  refine ⟨by simpa using hw, ?_⟩
  simpa [rename] using hw'

lemma eq_rename (h : Renamed x y u u') (hu : IsWord u) : u' = rename x y u := by
  obtain ⟨links, haligned, hthorough, rfl, rfl⟩ := h
  refine (eq_rename_of_links haligned hthorough ?_ ?_).2
  · rintro rfl
    exact hu.ne_nil rfl
  · intro c hc hmem
    have hc' := hu.chars c (mem_flatMap.mpr ⟨_, hmem, mem_singleton_self c⟩)
    simp [hc] at hc'

lemma eq_rename_of_chars (h : Renamed x y u u') (hx : x ≠ [])
    (hu : ∀ c ∈ u, isWordChar c = true) : u' = rename x y u := by
  by_cases hne : u = []
  · subst hne
    obtain ⟨links, haligned, -, hold, rfl⟩ := h
    obtain rfl : links = [] := by
      rw [← List.isEmpty_iff, ← haligned.isEmpty_oldText, hold]
      rfl
    have hsame : sameWord x [] = false := by
      rw [Bool.eq_false_iff]
      intro hsame
      exact hx (sameWord_nil_left.mp ((sameWord_comm _ _).trans hsame))
    rw [rename, hsame]
    rfl
  · exact h.eq_rename ⟨hne, hu⟩

lemma eq_rename_of_new (h : Renamed x y u u') (hu' : IsWord u') : IsWord u ∧ u' = rename x y u := by
  obtain ⟨links, haligned, hthorough, rfl, rfl⟩ := h
  refine eq_rename_of_links haligned hthorough ?_ ?_
  · rintro rfl
    exact hu'.ne_nil rfl
  · intro c hc hmem
    have hc' := hu'.chars c (mem_flatMap.mpr ⟨_, hmem, mem_singleton_self c⟩)
    simp [hc] at hc'

end Renamed

/-- Spellings of one key are renamed to spellings of one key. -/
lemma upper_rename {v : Text} (h : upper w = upper v) :
    upper (rename x y w) = upper (rename x y v) := by
  have hsame : sameWord x w = sameWord x v := by
    rw [sameWord, sameWord, ← folded_upper w, h, folded_upper]
  rw [rename, rename, hsame]
  split
  case isTrue => rfl
  case isFalse => exact h

lemma sameWord_rename (hxy : sameWord x y = false) (w : Text) :
    sameWord x (rename x y w) = false := by
  rw [rename]
  split
  case isTrue => exact hxy
  case isFalse hw => simpa using hw

end KrlWorkbench
