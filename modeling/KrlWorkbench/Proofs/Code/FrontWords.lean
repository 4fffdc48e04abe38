import KrlWorkbench.Proofs.Code.Columns
import KrlWorkbench.Proofs.Renaming.WholeWords

/-!
# Words in front of a keyword

A line begins with blanks and then, maybe, with `GLOBAL`, `CONST` or `DECL`.  A name that is none of
these words does not stand among them (`Modifiers.exists_links`), so it is found in the line as in
what follows (`Modifiers.map_whole_occurrences`), and where it follows at once, this is the first
place of it (`Modifiers.exists_find?`).
-/

namespace KrlWorkbench

open List Text

variable {a b tail x w s t lead u v rest : Text} {k : String} {links : List Link} {here : Cursor}
  {found : Groups}

/-! ## Blanks around a text -/

namespace Text

/-- Nothing but blanks. -/
def IsBlanks (a : Text) : Prop :=
  ∀ c ∈ a, isBlank c = true

lemma isBlanks_nil : IsBlanks [] := by
  intro c hc
  simp at hc

lemma isBlanks_space : IsBlanks [' '] := by
  intro c hc
  rw [mem_singleton.mp hc]
  decide

lemma startsWord_of_isBlanks (ha : IsBlanks a) : startsWord a = false := by
  cases a with
  | nil => rfl
  | cons c a => exact isWordChar_of_isBlank (ha c mem_cons_self)

lemma startsWord_blanks_append (ha : IsBlanks a) (hne : a ≠ []) (rest : Text) :
    startsWord (a ++ rest) = false := by
  obtain ⟨c, a, rfl⟩ := exists_cons_of_ne_nil hne
  exact isWordChar_of_isBlank (ha c mem_cons_self)

lemma endsWord_of_isBlanks (ha : IsBlanks a) : endsWord a = false := by
  cases hlast : a.getLast? with
  | none => rw [endsWord, hlast]; rfl
  | some c =>
    rw [endsWord, hlast]
    exact isWordChar_of_isBlank (ha c (mem_of_getLast? hlast))

lemma endsWord_append_of_false (ha : endsWord a = false) (hb : endsWord b = false) :
    endsWord (a ++ b) = false := by
  by_cases hnil : b = []
  · rwa [hnil, append_nil]
  · rwa [endsWord_append hnil]

lemma endsWord_of_append (h : endsWord (a ++ b) = false) : endsWord b = false := by
  by_cases hnil : b = []
  · rw [hnil]
    rfl
  · rwa [endsWord_append hnil] at h

/-- Blanks behind a text do not lengthen a word that follows it. -/
lemma startsWord_append_blanks (a : Text) (htail : IsBlanks tail) :
    startsWord (a ++ tail) = startsWord a := by
  cases a with
  | nil => exact startsWord_of_isBlanks htail
  | cons c a => rfl

/-- Where a word begins the blanks in front of it end. -/
lemma IsBlanks.append_inj {a' b' : Text} (ha : IsBlanks a) (ha' : IsBlanks a')
    (hb : startsWord b = true) (hb' : startsWord b' = true) (h : a ++ b = a' ++ b') :
    a = a' ∧ b = b' := by
  have htake : ∀ {a b : Text}, IsBlanks a → startsWord b = true →
      (a ++ b).takeWhile isBlank = a := by
    intro a b ha hb
    cases b with
    | nil => simp at hb
    | cons c b =>
      rw [takeWhile_append_of_pos ha, takeWhile_cons_of_neg]
      · simp
      · rw [isBlank_of_isWordChar hb]
        simp
  obtain rfl : a = a' := by rw [← htake ha hb, h, htake ha' hb']
  exact ⟨rfl, append_cancel_left h⟩

/-- A text that ends in a word does not reach into the blanks behind another. -/
lemma exists_append_of_append_blanks {core : Text} (ha : endsWord a = true)
    (htail : IsBlanks tail) (h : a ++ b = core ++ tail) :
    ∃ rest, core = a ++ rest ∧ b = rest ++ tail := by
  rcases append_eq_append_iff.mp h with ⟨rest, hcore, hb⟩ | ⟨more, ha', htail'⟩
  · exact ⟨rest, hcore, hb⟩
  · by_cases hmore : more = []
    · subst hmore
      exact ⟨[], by simpa using ha'.symm, by simpa using htail'.symm⟩
    · -- The end of `a` would be a blank.
      rw [ha', endsWord_append hmore, endsWord, getLast?_eq_some_getLast hmore] at ha
      have hmem : more.getLast hmore ∈ tail := by
        rw [htail']
        exact mem_append_left _ (getLast_mem hmore)
      have hword := isWordChar_of_isBlank (htail _ hmem)
      simp [hword] at ha

lemma exists_append_trim (a : Text) :
    ∃ lead tail, IsBlanks lead ∧ IsBlanks tail ∧ a = lead ++ (trim a ++ tail) := by
  refine ⟨a.takeWhile isBlank, (trimStart a).rtakeWhile isBlank, fun c hc => ?_, fun c hc => ?_, ?_⟩
  · exact mem_takeWhile_imp hc
  · exact mem_rtakeWhile_imp hc
  · rw [trim, trimEnd, dropEndWhile_eq_rdropWhile, rdropWhile_append_rtakeWhile,
      takeWhile_append_trimStart]

end Text

/-! ## Links of a text -/

/-- Two texts in links, where no word runs on from one into the other. -/
lemma Aligned.append {y : Text} {l l' : List Link} (h : Aligned x y l) (h' : Aligned x y l')
    (hcut : endsWord (oldText l) = false ∨ startsWord (oldText l') = false) :
    Aligned x y (l ++ l') := by
  induction h with
  | nil => exact h'
  | @sep c links hc _ ih =>
    rw [oldText_sep, ← singleton_append] at hcut
    exact .sep hc (ih (hcut.imp_left endsWord_of_append))
  | @word w w' links hw hnew hnext h ih =>
    rw [oldText_word] at hcut
    refine .word hw hnew ?_ (ih (hcut.imp_left endsWord_of_append))
    cases links with
    | cons => exact hnext
    | nil =>
      rcases hcut with hend | hstart
      · rw [oldText_nil, append_nil, hw.endsWord] at hend
        cases hend
      · exact h'.startsWord_old.symm.trans hstart

namespace Pattern

/-- Characters outside words as links. -/
def separators (a : Text) : List Link :=
  a.map Link.sep

lemma oldText_separators (a : Text) : oldText (separators a) = a := by
  induction a with
  | nil => rfl
  | cons c a ih => exact congrArg (c :: ·) ih

lemma aligned_separators (ha : IsBlanks a) : Aligned x x (separators a) := by
  induction a with
  | nil => exact .nil
  | cons c a ih =>
    exact .sep (isWordChar_of_isBlank (ha c mem_cons_self)) (ih (forall_mem_cons.mp ha).2)

lemma aligned_separators_append (ha : IsBlanks a) (h : Aligned x x links) :
    Aligned x x (separators a ++ links) := by
  refine (aligned_separators ha).append h (.inl ?_)
  rw [oldText_separators]
  exact endsWord_of_isBlanks ha

lemma wordsFrom_separators (x : Text) (here : Nat) (a : Text) :
    wordsFrom x here (separators a) = [] := by
  induction a generalizing here with
  | nil => rfl
  | cons c a ih => exact ih _

lemma wordsFrom_separators_append (x : Text) (here : Nat) (a : Text) (links : List Link) :
    wordsFrom x here (separators a ++ links) = wordsFrom x (here + byteLength a) links := by
  rw [wordsFrom_append, wordsFrom_separators, oldText_separators, nil_append]

lemma exists_links_of_isWord (x : Text) (hw : IsWord w)
    (hrest : startsWord rest = false) :
    ∃ links, Aligned x x links ∧ Aligned x x (.word w w :: links) ∧ oldText links = rest := by
  obtain ⟨links, haligned, rfl, -⟩ := exists_links x x false false rest
  refine ⟨links, haligned, .word hw (.inl rfl) ?_ haligned, rfl⟩
  rw [← haligned.startsWord_old, hrest]

/-! ## The first match -/

variable {p : Pattern}

lemma head?_occurrencesFrom (a b : Text) :
    (p.occurrencesFrom (between a b) none).head? = p.findFrom b (between a b) := by
  induction b generalizing a with
  | nil =>
    cases hmatch : p.matchAt (between a []) with
    | none => rw [occurrencesFrom_end hmatch, findFrom, hmatch]; rfl
    | some found =>
      rw [occurrencesFrom, findFrom, hmatch]
      dsimp only
      split <;> rfl
  | cons c b ih =>
    cases hmatch : p.matchAt (between a (c :: b)) with
    | none => rw [occurrencesFrom_past hmatch, ih, findFrom, hmatch, past_between]
    | some found =>
      rw [occurrencesFrom, findFrom, hmatch]
      dsimp only
      split <;> rfl

lemma head?_occurrences (text : Text) : (p.occurrences text).head? = p.find? text :=
  head?_occurrencesFrom [] text

lemma isIn_iff_occurrences_ne_nil {text : Text} : p.isIn text = true ↔ p.occurrences text ≠ [] := by
  rw [isIn, ← head?_occurrences, isSome_head?]

end Pattern

/-! ## Modifiers -/

open Pattern

/-- The words that may stand in front of what a line declares. -/
def modifiers : List String :=
  ["GLOBAL", "CONST", "DECL"]

/-- Whether a word is one of them. -/
def isModifier (w : Text) : Bool :=
  modifiers.any fun k => sameWord k.toList w

/-- A row of modifiers, each with blanks behind it. -/
inductive Modifiers : Text → Prop
  | nil : Modifiers []
  | cons {w s t : Text} (hw : isModifier w = true) (hs : IsBlanks s) (hne : s ≠ [])
      (ht : Modifiers t) : Modifiers (w ++ (s ++ t))

lemma isModifier_of_sameWord (hk : k ∈ modifiers) (h : sameWord k.toList w = true) :
    isModifier w = true :=
  any_eq_true.mpr ⟨k, hk, h⟩

lemma isWord_of_isModifier (hw : isModifier w = true) : IsWord w := by
  have hnames : ∀ k ∈ modifiers, isIdentifier k.toList = true := by decide
  obtain ⟨k, hk, hsame⟩ := any_eq_true.mp hw
  exact isWord_of_sameName (hnames k hk) hsame

/-- What equals another word up to case is a modifier if that word is one. -/
lemma isModifier_eq_of_sameWord {k : Text} (h : sameWord k w = true) :
    isModifier w = isModifier k := by
  simp only [isModifier, sameWord, sameWord_iff.mp h]

namespace Modifiers

lemma startsWord_append (ht : Modifiers t) (hw : IsWord w) (rest : Text) :
    startsWord (t ++ (w ++ rest)) = true := by
  cases ht with
  | nil => exact hw.startsWord_append rest
  | cons hv =>
    rw [append_assoc]
    exact (isWord_of_isModifier hv).startsWord_append _

lemma endsWord_eq_false (ht : Modifiers t) : endsWord t = false := by
  induction ht with
  | nil => rfl
  | cons hw hs hne _ ih =>
    rw [endsWord_append (by simp [hne])]
    exact endsWord_append_of_false (endsWord_of_isBlanks hs) ih

/-- A name that is no modifier does not stand among modifiers. -/
lemma exists_links (ht : Modifiers t) (hx : isModifier x = false) :
    ∃ links, Aligned x x links ∧ oldText links = t ∧ ∀ here, wordsFrom x here links = [] := by
  induction ht with
  | nil => exact ⟨[], .nil, rfl, fun _ => rfl⟩
  | @cons w s t hw hs hne _ ih =>
    obtain ⟨links, haligned, rfl, hwords⟩ := ih
    have hnext : (separators s ++ links).head?.any Link.isWord = false := by
      obtain ⟨c, s, rfl⟩ := exists_cons_of_ne_nil hne
      rfl
    have hother : sameWord x w = false := by
      rw [← Bool.not_eq_true]
      intro hsame
      rw [isModifier_eq_of_sameWord hsame, hx] at hw
      cases hw
    refine ⟨.word w w :: (separators s ++ links),
      .word (isWord_of_isModifier hw) (.inl rfl) hnext
        (aligned_separators_append hs haligned), ?_, fun here => ?_⟩
    · rw [oldText_word, oldText_append, oldText_separators]
    · rw [wordsFrom, hother, wordsFrom_separators_append, hwords]
      rfl

variable (ht : Modifiers t) (hlead : IsBlanks lead) (hx : isIdentifier x = true)
  (hnot : isModifier x = false)
include ht hlead hx hnot

/-- Another name is found in the line as in what follows the modifiers. -/
lemma map_whole_occurrences (h : Aligned x x links) :
    ((wholeWord x).occurrences (lead ++ (t ++ oldText links))).map (·.whole) =
      wordsFrom x (byteLength (lead ++ t)) links := by
  obtain ⟨front, hfront, rfl, hwords⟩ := ht.exists_links hnot
  have hall := Pattern.map_whole_occurrences hx
    (aligned_separators_append hlead (hfront.append h (.inl ht.endsWord_eq_false)))
  rwa [oldText_append, oldText_append, oldText_separators, wordsFrom_separators_append,
    wordsFrom_append, hwords, nil_append, Nat.zero_add, ← byteLength_append] at hall

/-- **A name behind modifiers** is where a search for it ends. -/
lemma exists_find? (hw : sameWord x w = true) (hrest : startsWord rest = false) :
    ∃ m, (wholeWord x).find? (lead ++ (t ++ (w ++ rest))) = some m ∧
      m.whole = ⟨byteLength (lead ++ t), w⟩ := by
  obtain ⟨links, -, hlinks, rfl⟩ := exists_links_of_isWord x (isWord_of_sameName hx hw) hrest
  have hwords := ht.map_whole_occurrences hlead hx hnot hlinks
  rw [oldText_word, wordsFrom, hw, if_pos rfl, singleton_append] at hwords
  obtain ⟨m, more, hm, hwhole, -⟩ := map_eq_cons_iff.mp hwords
  refine ⟨m, ?_, hwhole⟩
  rw [← head?_occurrences, hm]
  rfl

end Modifiers

/-! ## A word that may be left out -/

namespace LineRule

/-- A keyword with blanks behind it, or nothing. -/
def Skipped (k : String) (u : Text) : Prop :=
  u = [] ∨ ∃ w s, u = w ++ s ∧ sameWord k.toList w = true ∧ IsBlanks s ∧ s ≠ []

lemma skipped_of_fits_option {p : Pattern}
    (hp : ∀ {here u v found}, Fits p here u v found → sameWord k.toList u = true)
    (h : Fits (option (p ++ gap)) here u v found) : Skipped k u := by
  cases h with
  | altLeft h =>
    obtain ⟨w, s, _, _, rfl, -, hw, hgap⟩ := h.exists_of_append
    obtain ⟨hs, hne⟩ := hgap.forall_of_gap
    exact .inr ⟨w, s, rfl, hp hw, hs, hne⟩
  | altRight h =>
    cases h with
    | empty => exact .inl rfl

lemma skipped_of_fits_skip (h : Fits (skip k) here u v found) : Skipped k u :=
  skipped_of_fits_option (fun hfits => hfits.sameWord_of_word.1) h

lemma Skipped.modifiers (h : Skipped k u) (hk : k ∈ modifiers) : Modifiers u := by
  rcases h with rfl | ⟨w, s, rfl, hw, hs, hne⟩
  · exact .nil
  · have hone := Modifiers.cons (isModifier_of_sameWord hk hw) hs hne .nil
    rwa [append_nil] at hone

lemma fits_word {k u : Text} (h : sameWord k u = true) (here : Cursor) (v : Text) :
    Fits (word k) here u v [] := by
  induction k generalizing u here with
  | nil =>
    obtain rfl := sameWord_nil_left.mp h
    exact .empty _ _
  | cons d k ih =>
    cases u with
    | nil =>
      have hlen := length_eq_of_sameWord h
      simp at hlen
    | cons c u =>
      obtain ⟨hc, hu⟩ := sameWord_cons_cons.mp h
      exact .seq (u := [c]) (.one _ hc _) (ih hu _)

lemma fits_gap (hs : IsBlanks s) (hne : s ≠ []) (here : Cursor) (v : Text) :
    Fits gap here s v [] := by
  obtain ⟨c, s, rfl⟩ := exists_cons_of_ne_nil hne
  refine .seq (u := [c]) (.one _ (hs c mem_cons_self) _) (.many _ ?_ _)
  exact (forall_mem_cons.mp hs).2

lemma Skipped.fits (h : Skipped k u) (here : Cursor) (v : Text) : Fits (skip k) here u v [] := by
  rcases h with rfl | ⟨w, s, rfl, hw, hs, hne⟩
  · exact .altRight (.empty _ _)
  · exact .altLeft (.seq (fits_word hw _ _) (fits_gap hs hne _ _))

end LineRule

end KrlWorkbench
