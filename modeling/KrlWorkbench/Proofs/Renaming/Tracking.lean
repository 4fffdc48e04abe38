import KrlWorkbench.Proofs.Pattern.Fits
import KrlWorkbench.Proofs.Renaming.Links

/-!
# Searching a renamed text

A pattern that looks at words only as a whole finds the same in a text and in the renamed text: a
match on one side is a match on the other, and their groups are the two sides of the same links.

A search tries its ways in order and hands each end to a continuation, so the statement is about
continuations too.  `Follows` says that two continuations agree at every place between links;
`Tracks` says that a pattern keeps that.  Inside a word the two sides have no common places.  A
pattern such as a name, which could stop there, is tracked only before something that refuses to
begin with a word character; this is what the flag `whole` of `Tracks` asks for.
-/

namespace KrlWorkbench

open List Text

variable {f : Char → Bool} {g : Groups}

/-! ## Related results -/

section Related

variable {β : Type} {R : β → β → Prop} {r r' s s' : Option β}

lemma exists_of_rel_some (h : Option.Rel R r r') {b : β} (hr : r = some b) :
    ∃ b', r' = some b' ∧ R b b' := by
  subst hr
  cases h with
  | some h => exact ⟨_, rfl, h⟩

lemma exists_of_rel_some_right (h : Option.Rel R r r') {b' : β} (hr : r' = some b') :
    ∃ b, r = some b ∧ R b b' := by
  subst hr
  cases h with
  | some h => exact ⟨_, rfl, h⟩

lemma cases_of_rel (h : Option.Rel R r r') :
    r = none ∧ r' = none ∨ ∃ b b', r = some b ∧ r' = some b' ∧ R b b' := by
  cases h with
  | none => exact .inl ⟨rfl, rfl⟩
  | some h => exact .inr ⟨_, _, rfl, rfl, h⟩

lemma isSome_eq_of_rel (h : Option.Rel R r r') : r.isSome = r'.isSome := by
  cases h <;> rfl

lemma rel_or (hr : Option.Rel R r r') (hs : Option.Rel R s s') :
    Option.Rel R (r.or s) (r'.or s') := by
  cases hr with
  | some h => exact .some h
  | none => exact hs

lemma rel_ite {p : Prop} [Decidable p] (h : Option.Rel R r r') :
    Option.Rel R (if p then r else none) (if p then r' else none) := by
  split
  case isTrue => exact h
  case isFalse => exact .none

end Related

namespace Pattern

/-! ## Places between links -/

/-- The place in the old text between the links `a` and `b`. -/
def oldAt (a b : List Link) : Cursor :=
  between (oldText a) (oldText b)

/-- The place in the new text between the links `a` and `b`. -/
def newAt (a b : List Link) : Cursor :=
  between (newText a) (newText b)

/-- Entries of the same group that hold the two sides of the same links. -/
def SameGroup (links : List Link) (e e' : Nat × Capture) : Prop :=
  e.1 = e'.1 ∧ ∃ a l b, links = a ++ (l ++ b) ∧
    e.2 = ⟨byteLength (oldText a), oldText l⟩ ∧ e'.2 = ⟨byteLength (newText a), newText l⟩

/-- Groups that hold the two sides of the same links. -/
def SameGroups (links : List Link) (g g' : Groups) : Prop :=
  List.Forall₂ (SameGroup links) g g'

lemma skip_between (a u v : Text) : (between a (u ++ v)).skip u v = between (a ++ u) v := by
  simp [between, Cursor.skip]

lemma upTo_between (a u v : Text) :
    (between a (u ++ v)).upTo (between (a ++ u) v) = ⟨byteLength a, u⟩ := by
  rw [← skip_between, Cursor.upTo_skip rfl]
  rfl

/-- From the place between `a` and `b` on, the continuations give related results.  If `whole` is
set they refuse to begin with a word character. -/
structure Follows {β : Type} (links : List Link) (whole : Bool) (R : β → β → Prop)
    (a b : List Link) (k k' : Cursor → Groups → Option β) : Prop where
  related : ∀ l b', b = l ++ b' → ∀ g g', SameGroups links g g' →
    Option.Rel R (k (oldAt (a ++ l) b') g) (k' (newAt (a ++ l) b') g')
  refuses : whole = true → ∀ c g, startsWord c.rest = true → k c g = none ∧ k' c g = none

/-- The pattern gives related results before continuations that do. -/
def Tracks (links : List Link) (whole : Bool) (p : Pattern) : Prop :=
  ∀ ⦃β : Type⦄ ⦃R : β → β → Prop⦄ ⦃k k' : Cursor → Groups → Option β⦄ ⦃a b : List Link⦄,
    links = a ++ b → Follows links whole R a b k k' → ∀ ⦃g g' : Groups⦄, SameGroups links g g' →
    Option.Rel R (p.run (oldAt a b) g k) (p.run (newAt a b) g' k')

/-- The pattern fits nothing that begins with a word character. -/
def Refuses (p : Pattern) : Prop :=
  ∀ ⦃β : Type⦄ (c : Cursor) (g : Groups) (k : Cursor → Groups → Option β),
    startsWord c.rest = true → p.run c g k = none

section Continuations

variable {β : Type} {links : List Link} {whole : Bool} {R : β → β → Prop} {a b : List Link}
  {k k' : Cursor → Groups → Option β}

lemma Follows.here (h : Follows links whole R a b k k') {g' : Groups} (hg : SameGroups links g g') :
    Option.Rel R (k (oldAt a b) g) (k' (newAt a b) g') := by
  have hrel := h.related [] b rfl g g' hg
  rwa [append_nil] at hrel

lemma Follows.later {l b' : List Link} (h : Follows links whole R a (l ++ b') k k') :
    Follows links whole R (a ++ l) b' k k' := by
  refine ⟨?_, h.refuses⟩
  rintro m b'' rfl g g' hg
  rw [append_assoc]
  exact h.related (l ++ m) b'' (by simp) g g' hg

end Continuations

lemma run_alt {β : Type} (p q : Pattern) (c : Cursor) (g : Groups)
    (k : Cursor → Groups → Option β) :
    (Pattern.alt p q).run c g k = (p.run c g k).or (q.run c g k) := by
  rw [run]
  cases p.run c g k <;> rfl

lemma runMany_cons {β : Type} (p : Char → Bool) (next : Cursor → Option β) (c : Char)
    (rest : Text) (here : Cursor) :
    runMany p next (c :: rest) here =
      if p c then (runMany p next rest (here.past c rest)).or (next here) else next here := by
  rw [runMany]
  cases runMany p next rest (here.past c rest) <;> rfl

/-! ## Putting patterns together -/

section Composition

variable {links : List Link} {whole whole' : Bool} {p q : Pattern}

lemma tracks_empty : Tracks links false .empty := by
  intro β R k k' a b _ h g g' hg
  exact h.here hg

/-- What comes second may have to refuse word characters for what comes first. -/
lemma Tracks.append_of_refuses (hp : Tracks links whole p) (hq : Tracks links whole' q)
    (hrefuses : whole = true → Refuses q) : Tracks links whole' (p ++ q) := by
  intro β R k k' a b hlinks h g g' hg
  change Option.Rel R (p.run (oldAt a b) g fun c g => q.run c g k)
    (p.run (newAt a b) g' fun c g => q.run c g k')
  refine hp hlinks ⟨?_, ?_⟩ hg
  · rintro l b' rfl g g' hg
    exact hq (by rw [hlinks, append_assoc]) h.later hg
  · intro hwhole c g hc
    exact ⟨hrefuses hwhole c g k hc, hrefuses hwhole c g k' hc⟩

lemma Tracks.append (hp : Tracks links false p) (hq : Tracks links whole q) :
    Tracks links whole (p ++ q) :=
  hp.append_of_refuses hq (by simp)

lemma Tracks.append_refusing (hp : Tracks links true p) (hq : Tracks links whole q)
    (hrefuses : Refuses q) : Tracks links whole (p ++ q) :=
  hp.append_of_refuses hq fun _ => hrefuses

lemma Tracks.alt (hp : Tracks links whole p) (hq : Tracks links whole q) :
    Tracks links whole (.alt p q) := by
  intro β R k k' a b hlinks h g g' hg
  rw [run_alt, run_alt]
  exact rel_or (hp hlinks h hg) (hq hlinks h hg)

lemma Tracks.option (hp : Tracks links false p) : Tracks links false (option p) :=
  hp.alt tracks_empty

lemma Tracks.group (hp : Tracks links whole p) (i : Nat) : Tracks links whole (.group i p) := by
  intro β R k k' a b hlinks h g g' hg
  refine hp hlinks ⟨?_, ?_⟩ hg
  · rintro l b' rfl g g' hg
    refine h.related l b' rfl _ _ (.cons ⟨rfl, a, l, b', hlinks, ?_, ?_⟩ hg)
    · simp only [oldAt, oldText_append]
      exact upTo_between _ _ _
    · simp only [newAt, newText_append]
      exact upTo_between _ _ _
  · intro hwhole c g hc
    exact ⟨(h.refuses hwhole c _ hc).1, (h.refuses hwhole c _ hc).2⟩

lemma Refuses.append (hp : Refuses p) : Refuses (p ++ q) :=
  fun _ c g _ hc => hp c g _ hc

lemma refuses_textEnd : Refuses .textEnd := by
  intro β c g k hc
  rw [run, if_neg]
  intro hrest
  rw [List.isEmpty_iff.mp hrest] at hc
  simp at hc

lemma refuses_one (h : ∀ c, isWordChar c = true → f c = false) : Refuses (.one f) := by
  intro β c g k hc
  rw [run]
  split
  case h_1 d rest hrest =>
    rw [hrest] at hc
    rw [if_neg (by simp [h d hc])]
  case h_2 => rfl

/-- Before a word a repetition that reads no word characters reads nothing. -/
lemma runMany_of_startsWord {β : Type} (h : ∀ c, isWordChar c = true → f c = false)
    (next : Cursor → Option β) {text : Text} (htext : startsWord text = true) (here : Cursor) :
    runMany f next text here = next here := by
  cases text with
  | nil => rfl
  | cons c rest => rw [runMany_cons, if_neg (by simp [h c htext])]

lemma refuses_many_append (h : ∀ c, isWordChar c = true → f c = false) (hq : Refuses q) :
    Refuses (.many f ++ q) := by
  intro β c g k hc
  change runMany f (fun there => q.run there g k) c.rest c = none
  rw [runMany_of_startsWord h _ hc]
  exact hq c g k hc

end Composition

/-! ## Patterns along the links -/

lemma past_oldAt (a : List Link) (c : Char) (b : List Link) :
    (oldAt a (.sep c :: b)).past c (oldText b) = oldAt (a ++ [.sep c]) b := by
  simp only [oldAt, oldText_append, oldText_sep]
  exact past_between _ _ _

lemma past_newAt (a : List Link) (c : Char) (b : List Link) :
    (newAt a (.sep c :: b)).past c (newText b) = newAt (a ++ [.sep c]) b := by
  simp only [newAt, newText_append, newText_sep]
  exact past_between _ _ _

lemma skip_oldAt (a : List Link) (w w' : Text) (b : List Link) :
    (oldAt a (.word w w' :: b)).skip w (oldText b) = oldAt (a ++ [.word w w']) b := by
  simp only [oldAt, oldText_append, oldText_word, oldText_nil, append_nil]
  exact skip_between _ _ _

lemma skip_newAt (a : List Link) (w w' : Text) (b : List Link) :
    (newAt a (.word w w' :: b)).skip w' (newText b) = newAt (a ++ [.word w w']) b := by
  simp only [newAt, newText_append, newText_word, newText_nil, append_nil]
  exact skip_between _ _ _

/-- A repetition that reads word characters passes a word, if nothing may follow inside it. -/
lemma runMany_word {β : Type} (hf : ∀ c, isWordChar c = true → f c = true)
    {next : Cursor → Option β} (hnext : ∀ c, startsWord c.rest = true → next c = none)
    {w rest : Text} (hw : ∀ c ∈ w, isWordChar c = true) {here : Cursor}
    (hrest : here.rest = w ++ rest) :
    runMany f next (w ++ rest) here = runMany f next rest (here.skip w rest) := by
  induction w generalizing here with
  | nil => rw [Cursor.skip_nil_eq (by simpa using hrest), nil_append]
  | cons c w ih =>
    have hc := hw c mem_cons_self
    have hstay : next here = none := hnext here (by rw [hrest]; exact hc)
    have hpast : (here.past c (w ++ rest)).rest = w ++ rest := rfl
    rw [cons_append, runMany_cons, if_pos (hf c hc), hstay, Option.or_none,
      ih (forall_mem_cons.mp hw).2 hpast, Cursor.past_eq_skip, Cursor.skip_skip]
    rfl

lemma run_name_word {β : Type} {f₀ : Char → Bool} (hf : ∀ c, isWordChar c = true → f c = true)
    {k : Cursor → Groups → Option β} (hk : ∀ c, startsWord c.rest = true → k c g = none) {c : Char}
    {v rest : Text} (hw : IsWord (c :: v)) {here : Cursor} (hrest : here.rest = c :: v ++ rest) :
    (.one f₀ ++ .many f : Pattern).run here g k =
      if f₀ c then runMany f (fun there => k there g) rest (here.skip (c :: v) rest) else none := by
  change (Pattern.seq (.one f₀) (.many f)).run here g k = _
  rw [run, run, hrest]
  change (if f₀ c then runMany f (fun there => k there g) (v ++ rest)
    (here.past c (v ++ rest)) else none) = _
  have hpast : (here.past c (v ++ rest)).rest = v ++ rest := rfl
  have hv : ∀ d ∈ v, isWordChar d = true := (forall_mem_cons.mp hw.chars).2
  rw [runMany_word hf hk hv hpast, Cursor.past_eq_skip, Cursor.skip_skip]
  rfl

/-- A word pattern reads all of a word or nothing, if nothing may follow inside it. -/
lemma run_word_word {β : Type} {key : Text} (hkey : ∀ c ∈ key, isNameChar c = true) (hne : key ≠ [])
    {k : Cursor → Groups → Option β} (hk : ∀ c, startsWord c.rest = true → k c g = none)
    {w rest : Text} (hw : IsWord w) (hstart : startsWord rest = false) {here : Cursor}
    (hrest : here.rest = w ++ rest) :
    (word key).run here g k = if sameWord key w then k (here.skip w rest) g else none := by
  split
  case isTrue hsame => exact run_word hrest hsame g k
  case isFalse hsame =>
    by_contra hsome
    obtain ⟨result, hresult⟩ := Option.ne_none_iff_exists'.mp hsome
    obtain ⟨u, v, found, hsplit, hfits, hnext⟩ := exists_fits_of_run hresult
    obtain ⟨hu, rfl⟩ := hfits.sameWord_of_word
    have hv : startsWord v = false := by
      by_contra hv
      rw [Bool.not_eq_false] at hv
      rw [nil_append, hk _ hv] at hnext
      simp at hnext
    have hword := isWord_of_sameWord hne hkey hu
    obtain ⟨rfl, -⟩ := hw.append_inj hword hstart hv (hrest.symm.trans hsplit)
    exact hsame hu

lemma run_word_eq_none {β : Type} {key : Text} (hkey : ∀ c ∈ key, isNameChar c = true)
    (hne : key ≠ []) (k : Cursor → Groups → Option β) (g : Groups) {here : Cursor}
    (hstart : startsWord here.rest = false) : (word key).run here g k = none := by
  by_contra hsome
  obtain ⟨result, hresult⟩ := Option.ne_none_iff_exists'.mp hsome
  obtain ⟨u, v, found, hsplit, hfits, -⟩ := exists_fits_of_run hresult
  obtain ⟨hu, -⟩ := hfits.sameWord_of_word
  rw [hsplit, (isWord_of_sameWord hne hkey hu).startsWord_append] at hstart
  simp at hstart

section Links

variable {x y : Text} {links : List Link} (haligned : Aligned x y links) (hy : IsWord y)

include haligned hy

lemma tracks_textStart : Tracks links false .textStart := by
  rintro β R k k' a b rfl h g g' hg
  have ha := haligned.append_left
  have hold : (oldAt a b).before.isEmpty = a.isEmpty := by
    rw [oldAt, between, isEmpty_reverse, ha.isEmpty_oldText]
  have hnew : (newAt a b).before.isEmpty = a.isEmpty := by
    rw [newAt, between, isEmpty_reverse, ha.isEmpty_newText hy]
  rw [run, run, hold, hnew]
  exact rel_ite (h.here hg)

lemma tracks_textEnd : Tracks links false .textEnd := by
  rintro β R k k' a b rfl h g g' hg
  have hb := haligned.append_right
  have hold : (oldAt a b).rest.isEmpty = b.isEmpty := hb.isEmpty_oldText
  have hnew : (newAt a b).rest.isEmpty = b.isEmpty := hb.isEmpty_newText hy
  rw [run, run, hold, hnew]
  exact rel_ite (h.here hg)

lemma tracks_one {f : Char → Bool} (hf : ∀ c, isWordChar c = true → f c = false) :
    Tracks links false (.one f) := by
  rintro β R k k' a b rfl h g g' hg
  have hb := haligned.append_right
  cases hb with
  | nil => exact .none
  | @sep c b hc hb =>
    change Option.Rel R (if f c then k ((oldAt a (.sep c :: b)).past c (oldText b)) g else none)
      (if f c then k' ((newAt a (.sep c :: b)).past c (newText b)) g' else none)
    rw [past_oldAt, past_newAt]
    exact rel_ite (h.related [.sep c] b rfl g g' hg)
  | @word w w' b hw hnew _ hb =>
    have hw' := Aligned.isWord_new hy hw hnew
    rw [refuses_one hf _ _ _ (hw.startsWord_append _),
      refuses_one hf _ _ _ (hw'.startsWord_append _)]
    exact .none

omit haligned hy in
/-- A repetition along the links.  It passes a separator on both sides or on none; what it does at
a word is given by `hword`, which may use what it does behind the word. -/
lemma runMany_related {β : Type} {R : β → β → Prop} {f : Char → Bool} {whole : Bool}
    {k k' : Cursor → Groups → Option β} {g g' : Groups} (hg : SameGroups links g g')
    (hword : ∀ {a w w' b}, IsWord w → (w' = w ∨ sameWord x w = true ∧ w' = y) →
      Follows links whole R a (.word w w' :: b) k k' →
      Option.Rel R (runMany f (fun there => k there g) (oldText b) (oldAt (a ++ [.word w w']) b))
        (runMany f (fun there => k' there g') (newText b) (newAt (a ++ [.word w w']) b)) →
      Option.Rel R
        (runMany f (fun there => k there g) (w ++ oldText b) (oldAt a (.word w w' :: b)))
        (runMany f (fun there => k' there g') (w' ++ newText b) (newAt a (.word w w' :: b))))
    {a b : List Link} (hb : Aligned x y b) (h : Follows links whole R a b k k') :
    Option.Rel R (runMany f (fun there => k there g) (oldText b) (oldAt a b))
      (runMany f (fun there => k' there g') (newText b) (newAt a b)) := by
  induction hb generalizing a with
  | nil => exact h.here hg
  | @sep c b hc _ ih =>
    rw [oldText_sep, newText_sep, runMany_cons, runMany_cons, past_oldAt, past_newAt]
    split
    case isTrue => exact rel_or (ih (Follows.later (l := [.sep c]) h)) (h.here hg)
    case isFalse => exact h.here hg
  | @word w w' b hw hnew _ _ ih =>
    exact hword hw hnew h (ih (Follows.later (l := [.word w w']) h))

lemma tracks_many {f : Char → Bool} (hf : ∀ c, isWordChar c = true → f c = false) :
    Tracks links false (.many f) := by
  rintro β R k k' a b rfl h g g' hg
  refine runMany_related hg ?_ haligned.append_right h
  intro a w w' b hw hnew h _
  have hw' := Aligned.isWord_new hy hw hnew
  rw [runMany_of_startsWord hf _ (hw.startsWord_append _),
    runMany_of_startsWord hf _ (hw'.startsWord_append _)]
  exact h.here hg

/-- A repetition that reads all word characters, before something that does not begin with one. -/
lemma tracks_many_word {f : Char → Bool} (hf : ∀ c, isWordChar c = true → f c = true) :
    Tracks links true (.many f) := by
  rintro β R k k' a b rfl h g g' hg
  refine runMany_related hg ?_ haligned.append_right h
  intro a w w' b hw hnew h hbehind
  have hw' := Aligned.isWord_new hy hw hnew
  have hold : (oldAt a (.word w w' :: b)).rest = w ++ oldText b := rfl
  have hnew : (newAt a (.word w w' :: b)).rest = w' ++ newText b := rfl
  rwa [runMany_word hf (fun c hc => (h.refuses rfl c g hc).1) hw.chars hold,
    runMany_word hf (fun c hc => (h.refuses rfl c g' hc).2) hw'.chars hnew, skip_oldAt, skip_newAt]

/-- A name: its first character is told apart from other word characters, but not where a word is
replaced. -/
lemma tracks_name {f₀ f : Char → Bool} (hf : ∀ c, isWordChar c = true → f c = true)
    (hx₀ : ∀ c v, sameWord x (c :: v) = true → f₀ c = true)
    (hy₀ : ∀ c v, y = c :: v → f₀ c = true) : Tracks links true (.one f₀ ++ .many f) := by
  rintro β R k k' a b rfl h g g' hg
  have hb := haligned.append_right
  have hmany : ∀ {l b'}, b = l ++ b' → Option.Rel R
      (runMany f (fun there => k there g) (oldText b') (oldAt (a ++ l) b'))
      (runMany f (fun there => k' there g') (newText b') (newAt (a ++ l) b')) := by
    rintro l b' rfl
    exact tracks_many_word haligned hy hf (by simp) h.later hg
  cases hb with
  | nil => exact .none
  | @sep c b hc _ =>
    change Option.Rel R
      (if f₀ c then runMany f (fun there => k there g) (oldText b)
        ((oldAt a (.sep c :: b)).past c (oldText b)) else none)
      (if f₀ c then runMany f (fun there => k' there g') (newText b)
        ((newAt a (.sep c :: b)).past c (newText b)) else none)
    rw [past_oldAt, past_newAt]
    exact rel_ite (hmany (l := [.sep c]) rfl)
  | @word w w' b hw hnew _ _ =>
    have hw' := Aligned.isWord_new hy hw hnew
    obtain ⟨c, v, rfl⟩ := exists_cons_of_ne_nil hw.ne_nil
    obtain ⟨c', v', rfl⟩ := exists_cons_of_ne_nil hw'.ne_nil
    -- Where the word is replaced, both words may begin a name.
    have hfirst : f₀ c = f₀ c' := by
      rcases hnew with hkept | ⟨hsame, hnew⟩
      · rw [(List.cons.inj hkept).1]
      · rw [hx₀ c v hsame, hy₀ c' v' hnew.symm]
    have hold : (oldAt a (.word (c :: v) (c' :: v') :: b)).rest = c :: v ++ oldText b := rfl
    have hnew : (newAt a (.word (c :: v) (c' :: v') :: b)).rest = c' :: v' ++ newText b := rfl
    rw [run_name_word hf (fun c hc => (h.refuses rfl c g hc).1) hw hold,
      run_name_word hf (fun c hc => (h.refuses rfl c g' hc).2) hw' hnew, skip_oldAt, skip_newAt,
      hfirst]
    exact rel_ite (hmany (l := [.word (c :: v) (c' :: v')]) rfl)

lemma tracks_word {key : Text} (hkey : ∀ c ∈ key, isNameChar c = true) (hne : key ≠ [])
    (hx : sameWord key x = false) (hy' : sameWord key y = false) :
    Tracks links true (word key) := by
  rintro β R k k' a b rfl h g g' hg
  have hb := haligned.append_right
  cases hstart : b.head?.any Link.isWord with
  | false =>
    have hold : startsWord (oldAt a b).rest = false := hb.startsWord_old.trans hstart
    have hnew : startsWord (newAt a b).rest = false := (hb.startsWord_new hy).trans hstart
    rw [run_word_eq_none hkey hne k g hold, run_word_eq_none hkey hne k' g' hnew]
    exact .none
  | true =>
    cases hb with
    | nil => simp at hstart
    | sep => simp [Link.isWord] at hstart
    | @word w w' b hw hnew hnext hb =>
      have hw' := Aligned.isWord_new hy hw hnew
      -- A word that is replaced is no keyword, before or after.
      have hsame : sameWord key w = sameWord key w' := by
        rcases hnew with rfl | ⟨hxw, rfl⟩
        · rfl
        · rw [hy', ← hx, sameWord, sameWord, sameWord_iff.mp hxw]
      have hold : (oldAt a (.word w w' :: b)).rest = w ++ oldText b := rfl
      have hnew : (newAt a (.word w w' :: b)).rest = w' ++ newText b := rfl
      rw [run_word_word hkey hne (fun c hc => (h.refuses rfl c g hc).1) hw
          (hb.startsWord_old.trans hnext) hold,
        run_word_word hkey hne (fun c hc => (h.refuses rfl c g' hc).2) hw'
          ((hb.startsWord_new hy).trans hnext) hnew, skip_oldAt, skip_newAt, hsame]
      exact rel_ite (h.related [.word w w'] b rfl g g' hg)

end Links

/-! ## Searches -/

/-- Groups with one number hold the two sides of the same links. -/
lemma SameGroups.lookup {links : List Link} {g' : Groups} (h : SameGroups links g g') (i : Nat) :
    Option.Rel (fun c c' => SameGroup links (i, c) (i, c')) (g.lookup i) (g'.lookup i) := by
  induction h with
  | nil => exact .none
  | @cons e e' g g' he _ ih =>
    obtain ⟨j, c⟩ := e
    obtain ⟨j', c'⟩ := e'
    obtain rfl : j = j' := he.1
    rw [lookup_cons, lookup_cons]
    cases hj : i == j with
    | true =>
      obtain rfl := beq_iff_eq.mp hj
      exact .some he
    | false => exact ih

end Pattern
end KrlWorkbench
