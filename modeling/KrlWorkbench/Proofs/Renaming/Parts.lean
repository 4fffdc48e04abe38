import KrlWorkbench.Proofs.Code.ListItems

/-!
# Parts of a renamed text

Trimming a text, cutting it at brackets, colons and equals signs and splitting it at commas look at
no word characters.  So each of these sends a text and the renamed text to parts that are renamed
again.  A part begins where its first word, if it is the old name, is replaced: not in a string and
behind no owner.
-/

namespace KrlWorkbench

open List ListItem Text

variable {c : Char}

/-- Links behind a front that opens no string and owns nothing are thorough as if nothing stood
before them. -/
lemma Thorough.right {x y : Text} {l l' : List Link} (h : Thorough x y false false (l ++ l'))
    (haligned : Aligned x y (l ++ l')) (hinside : Code.insideAfter false (oldText l) = false)
    (howned : ownedAfter false (oldText l) = false) : Thorough x y false false l' := by
  have hright := ((thorough_append haligned.append_left).mp h).2
  rwa [hinside, howned] at hright

namespace Renamed

variable {x y : Text} {l l' : List Link}

lemma of_append (haligned : Aligned x y (l ++ l'))
    (hthorough : Thorough x y false false (l ++ l')) : Renamed x y (oldText l) (newText l) :=
  ⟨l, haligned.append_left, ((thorough_append haligned.append_left).mp hthorough).1, rfl, rfl⟩

end Renamed

/-! ## The last colon -/

lemma splitLastColon_append (a : Text) {b : Text} (hb : ':' ∉ b) :
    splitLastColon (a ++ ':' :: b) = some (a, b) := by
  have hback : ∀ c ∈ b.reverse, (c != ':') = true := by
    intro c hc
    rw [bne_iff_ne]
    rintro rfl
    exact hb (mem_reverse.mp hc)
  simp [splitLastColon, dropWhile_append_of_pos hback, takeWhile_append_of_pos hback]

lemma splitLastColon_eq_none {raw : Text} (h : ':' ∉ raw) : splitLastColon raw = none := by
  have hback : raw.reverse.dropWhile (· != ':') = [] := by
    rw [dropWhile_eq_nil_iff]
    intro c hc
    rw [bne_iff_ne]
    rintro rfl
    exact h (mem_reverse.mp hc)
  simp [splitLastColon, hback]

/-- What stands before the last colon, or everything. -/
def beforeColon (raw : Text) : Text :=
  ((splitLastColon raw).map (·.1)).getD raw

lemma exists_last_sep (c : Char) (links : List Link) :
    Link.sep c ∉ links ∨ ∃ l l', links = l ++ .sep c :: l' ∧ Link.sep c ∉ l' := by
  induction links with
  | nil => exact .inl (by simp)
  | cons link links ih =>
    rcases ih with hnone | ⟨l, l', rfl, hl'⟩
    · by_cases hlink : link = .sep c
      · exact .inr ⟨[], links, by rw [hlink, nil_append], hnone⟩
      · exact .inl (by simp [hnone, Ne.symm hlink])
    · exact .inr ⟨link :: l, l', rfl, hl'⟩

/-! ## Cutting links -/

/-- A function cuts off the texts of some links behind the same link. -/
def CutsAlike (cut : Text → Text) (links : List Link) : Prop :=
  ∃ l l', links = l ++ l' ∧ cut (oldText links) = oldText l ∧ cut (newText links) = newText l

/-- A word that is kept is kept in both texts. -/
lemma CutsAlike.word {cut : Text → Text} {links : List Link} {w w' : Text}
    (h : CutsAlike cut links) (hcut : ∀ {w}, IsWord w → ∀ t, cut (w ++ t) = w ++ cut t)
    (hw : IsWord w) (hw' : IsWord w') : CutsAlike cut (.word w w' :: links) := by
  obtain ⟨l, l', rfl, hold, hnew⟩ := h
  refine ⟨.word w w' :: l, l', rfl, ?_, ?_⟩
  · rw [oldText_word, hcut hw, hold, oldText_word]
  · rw [newText_word, hcut hw', hnew, newText_word]

namespace Aligned

variable {x y : Text} {links : List Link} (h : Aligned x y links) (hy : IsWord y)
include h hy

/-- A class of characters that does not tell word characters apart ends at the same link. -/
lemma cutsAlike_takeWhile {f : Char → Bool} {v : Bool}
    (hf : ∀ c, isWordChar c = true → f c = v) : CutsAlike (·.takeWhile f) links := by
  induction h with
  | nil => exact ⟨[], [], rfl, rfl, rfl⟩
  | @sep c links hc _ ih =>
    obtain ⟨l, l', rfl, hold, hnew⟩ := ih
    dsimp only at hold hnew
    rw [CutsAlike, oldText_sep, newText_sep, takeWhile_cons, takeWhile_cons, hold, hnew]
    cases f c with
    | true => exact ⟨.sep c :: l, l', rfl, rfl, rfl⟩
    | false => exact ⟨[], .sep c :: (l ++ l'), rfl, rfl, rfl⟩
  | @word w w' links hw hnew _ _ ih =>
    have hw' := isWord_new hy hw hnew
    cases v with
    | true =>
      exact ih.word (fun hw t => takeWhile_append_of_pos fun c hc => hf c (hw.chars c hc)) hw hw'
    | false =>
      obtain ⟨c, t, rfl⟩ := exists_cons_of_ne_nil hw.ne_nil
      obtain ⟨c', t', rfl⟩ := exists_cons_of_ne_nil hw'.ne_nil
      refine ⟨[], .word (c :: t) (c' :: t') :: links, rfl, ?_, ?_⟩
      · exact takeWhile_cons_of_neg (by simp [hf c (hw.chars c mem_cons_self)])
      · exact takeWhile_cons_of_neg (by simp [hf c' (hw'.chars c' mem_cons_self)])

lemma exists_span {f : Char → Bool} {v : Bool}
    (hf : ∀ c, isWordChar c = true → f c = v) :
    ∃ l l', links = l ++ l' ∧
      (oldText links).takeWhile f = oldText l ∧ (oldText links).dropWhile f = oldText l' ∧
      (newText links).takeWhile f = newText l ∧ (newText links).dropWhile f = newText l' := by
  have hdrop : ∀ {a b t : Text}, t = a ++ b → t.takeWhile f = a → t.dropWhile f = b := by
    rintro a b t rfl ha
    have hboth : (a ++ b).takeWhile f ++ (a ++ b).dropWhile f = _ := takeWhile_append_dropWhile
    rw [ha] at hboth
    exact List.append_cancel_left hboth
  obtain ⟨l, l', rfl, hold, hnew⟩ := h.cutsAlike_takeWhile hy hf
  exact ⟨l, l', rfl, hold, hdrop (oldText_append ..) hold, hnew, hdrop (newText_append ..) hnew⟩

lemma cutsAlike_trimEnd : CutsAlike trimEnd links := by
  induction h with
  | nil => exact ⟨[], [], rfl, rfl, rfl⟩
  | @sep c links hc h ih =>
    obtain ⟨l, l', rfl, hold, hnew⟩ := ih
    have hl := h.append_left
    rw [CutsAlike, oldText_sep, newText_sep, trimEnd_cons, trimEnd_cons, hold, hnew,
      hl.isEmpty_oldText, hl.isEmpty_newText hy]
    split
    case isTrue => exact ⟨[], .sep c :: (l ++ l'), rfl, rfl, rfl⟩
    case isFalse => exact ⟨.sep c :: l, l', rfl, rfl, rfl⟩
  | word hw hnew _ _ ih =>
    refine ih.word (fun hw t => ?_) hw (isWord_new hy hw hnew)
    exact trimEnd_append_of_solid (fun c hc => isBlank_of_isWordChar (hw.chars c hc)) t

/-- A character outside words stands in both texts where it separates the links. -/
lemma mem_iff (hc : isWordChar c = false) :
    (c ∈ oldText links ↔ Link.sep c ∈ links) ∧ (c ∈ newText links ↔ Link.sep c ∈ links) := by
  have hword : ∀ {w : Text}, IsWord w → c ∉ w := by
    intro w hw hmem
    simp [hw.chars c hmem] at hc
  induction h with
  | nil => simp
  | sep _ _ ih => simp [ih]
  | word hw hnew _ _ ih => simp [ih, hword hw, hword (isWord_new hy hw hnew)]

lemma cutsAlike_stripIndex : CutsAlike stripIndex links := by
  have hmem : (newText links).contains '[' = (oldText links).contains '[' := by
    obtain ⟨hold, hnew⟩ := h.mem_iff hy (c := '[') (by decide)
    rw [Bool.eq_iff_iff, contains_iff_mem, contains_iff_mem, hold, hnew]
  have hclass : ∀ c, isWordChar c = true → (c != '[') = true := by
    intro c hc
    simpa using ne_of_isWordChar (by decide) hc
  rw [CutsAlike, stripIndex, stripIndex, hmem]
  split
  case isTrue =>
    obtain ⟨front, back, rfl, hfront, hfront'⟩ := h.cutsAlike_takeWhile hy hclass
    obtain ⟨l, l', rfl, hold, hnew⟩ := h.append_left.cutsAlike_trimEnd hy
    exact ⟨l, l' ++ back, by rw [append_assoc], (congrArg trimEnd hfront).trans hold,
      (congrArg trimEnd hfront').trans hnew⟩
  case isFalse => exact ⟨links, [], by simp, rfl, rfl⟩

lemma cutsAlike_splitInitialFrom (depth : Int) (inside : Bool) :
    CutsAlike (fun t => (splitInitialFrom depth inside t).1) links := by
  induction h generalizing depth inside with
  | nil => exact ⟨[], [], rfl, rfl, rfl⟩
  | @sep c links hc _ ih =>
    rw [CutsAlike, oldText_sep, newText_sep, splitInitialFrom, splitInitialFrom]
    split
    case isTrue => exact ⟨[], .sep c :: links, rfl, rfl, rfl⟩
    case isFalse =>
      obtain ⟨l, l', hlinks, hold, hnew⟩ := ih _ _
      exact ⟨.sep c :: l, l', by rw [hlinks, cons_append], congrArg (c :: ·) hold,
        congrArg (c :: ·) hnew⟩
  | word hw hnew _ _ ih =>
    refine (ih depth inside).word (fun hw t => ?_) hw (isWord_new hy hw hnew)
    rw [splitInitialFrom_of_isPlain (isPlain_of_isWord hw)]

/-- The pieces of a list: the first is a front of the links, the others begin behind a comma. -/
lemma exists_pieces (depth : Nat) {inside owned : Bool}
    (hthorough : Thorough x y inside owned links) :
    ∃ first rest more more', links = first ++ rest ∧
      pieces depth inside (oldText links) = oldText first :: more ∧
      pieces depth inside (newText links) = newText first :: more' ∧
      List.Forall₂ (Renamed x y) more more' := by
  -- On the links; a comma outside brackets and strings begins a new piece in both.
  induction h generalizing depth inside owned with
  | nil => exact ⟨[], [], [], [], rfl, rfl, rfl, .nil⟩
  | @sep c links hc h ih =>
    rcases pieces_cons_cases depth inside c with ⟨depth', hjoin⟩ | ⟨rfl, rfl, hcomma⟩
    · obtain ⟨first, rest, more, more', hlinks, hold, hnew, hmore⟩ := ih depth' hthorough
      refine ⟨.sep c :: first, rest, more, more', by rw [hlinks, cons_append], ?_, ?_, hmore⟩
      · rw [oldText_sep, hjoin, hold]
        rfl
      · rw [newText_sep, hjoin, hnew]
        rfl
    · have hbehind : Thorough x y false false links := hthorough
      obtain ⟨first, rest, more, more', rfl, hold, hnew, hmore⟩ := ih depth hbehind
      refine ⟨[], .sep ',' :: (first ++ rest), oldText first :: more, newText first :: more', rfl,
        ?_, ?_, .cons (Renamed.of_append h hbehind) hmore⟩
      · rw [oldText_sep, hcomma, hold, oldText_nil]
      · rw [newText_sep, hcomma, hnew, newText_nil]
  | @word w w' links hw hnew _ _ ih =>
    have hw' := isWord_new hy hw hnew
    obtain ⟨first, rest, more, more', rfl, hold, hnew, hmore⟩ := ih depth hthorough.2
    refine ⟨.word w w' :: first, rest, more, more', rfl, ?_, ?_, hmore⟩
    · rw [oldText_word, pieces_append (stateAfter_of_isPlain (isPlain_of_isWord hw) ..) hold]
      rfl
    · rw [newText_word, pieces_append (stateAfter_of_isPlain (isPlain_of_isWord hw') ..) hnew]
      rfl

end Aligned

/-! ## Renamed parts -/

namespace Renamed

variable {x y u u' : Text} (h : Renamed x y u u')
include h

lemma cut {cut : Text → Text} (hcut : ∀ {links}, Aligned x y links → CutsAlike cut links) :
    Renamed x y (cut u) (cut u') := by
  obtain ⟨links, haligned, hthorough, rfl, rfl⟩ := h
  obtain ⟨l, l', rfl, hold, hnew⟩ := hcut haligned
  rw [hold, hnew]
  exact of_append haligned hthorough

variable (hy : IsWord y)
include hy

lemma trimStart :
    Renamed x y (Text.trimStart u) (Text.trimStart u') := by
  obtain ⟨links, haligned, hthorough, rfl, rfl⟩ := h
  obtain ⟨l, l', rfl, hold, hold', -, hnew'⟩ :=
    haligned.exists_span hy (f := isBlank) fun c hc => isBlank_of_isWordChar hc
  have hblank : ∀ c ∈ oldText l, isBlank c = true := by
    rw [← hold]
    exact fun c hc => mem_takeWhile_imp hc
  rw [Text.trimStart, Text.trimStart, hold', hnew']
  refine ⟨l', haligned.append_right, hthorough.right haligned ?_ ?_, rfl, rfl⟩
  · exact Code.insideAfter_of_not_mem fun hquote => absurd (hblank _ hquote) (by decide)
  · refine Bool.eq_false_iff.mpr fun howned => ?_
    rcases ownedAfter_eq_true howned with ⟨-, hfalse⟩ | hdollar | hpoint
    · simp at hfalse
    · exact absurd (hblank _ hdollar) (by decide)
    · exact absurd (hblank _ hpoint) (by decide)

lemma trimEnd : Renamed x y (Text.trimEnd u) (Text.trimEnd u') :=
  h.cut fun haligned => haligned.cutsAlike_trimEnd hy

lemma trim : Renamed x y (Text.trim u) (Text.trim u') :=
  (h.trimStart hy).trimEnd hy

lemma stripIndex : Renamed x y (stripIndex u) (stripIndex u') :=
  h.cut fun haligned => haligned.cutsAlike_stripIndex hy

lemma splitInitial : Renamed x y (splitInitial u).1 (splitInitial u').1 :=
  h.cut fun haligned => haligned.cutsAlike_splitInitialFrom hy 0 false

lemma pieces :
    List.Forall₂ (Renamed x y) (pieces 0 false u) (pieces 0 false u') := by
  obtain ⟨links, haligned, hthorough, rfl, rfl⟩ := h
  obtain ⟨first, rest, more, more', rfl, hold, hnew, hmore⟩ := haligned.exists_pieces hy 0 hthorough
  rw [hold, hnew]
  exact .cons (of_append haligned hthorough) hmore

lemma beforeColon :
    Renamed x y (KrlWorkbench.beforeColon u) (KrlWorkbench.beforeColon u') := by
  obtain ⟨links, haligned, hthorough, rfl, rfl⟩ := h
  have hcolon : isWordChar ':' = false := by decide
  rcases exists_last_sep ':' links with hnone | ⟨l, l', rfl, hl'⟩
  · obtain ⟨hold, hnew⟩ := haligned.mem_iff hy hcolon
    rw [KrlWorkbench.beforeColon, KrlWorkbench.beforeColon,
      splitLastColon_eq_none (hold.not.mpr hnone), splitLastColon_eq_none (hnew.not.mpr hnone)]
    exact ⟨links, haligned, hthorough, rfl, rfl⟩
  · have hright : Aligned x y l' := by
      cases haligned.append_right with
      | sep _ h => exact h
    obtain ⟨hold, hnew⟩ := hright.mem_iff hy hcolon
    rw [KrlWorkbench.beforeColon, KrlWorkbench.beforeColon, oldText_append, newText_append,
      oldText_sep, newText_sep, splitLastColon_append _ (hold.not.mpr hl'),
      splitLastColon_append _ (hnew.not.mpr hl')]
    exact of_append haligned hthorough

lemma head?_eq_iff (hc : isWordChar c = false) :
    u'.head? = some c ↔ u.head? = some c := by
  obtain ⟨links, haligned, -, rfl, rfl⟩ := h
  have hword : ∀ {w rest : Text}, IsWord w → (w ++ rest).head? ≠ some c := by
    intro w rest hw hhead
    have hstart := hw.startsWord_append rest
    rw [startsWord, hhead] at hstart
    simp [hc] at hstart
  cases haligned with
  | nil => rfl
  | sep => rfl
  | word hw hnew =>
    rw [oldText_word, newText_word]
    simp only [hword hw, hword (Aligned.isWord_new hy hw hnew)]

lemma allBlank_eq : allBlank u' = allBlank u := by
  obtain ⟨links, haligned, -, rfl, rfl⟩ := h
  have hword : ∀ {w : Text}, IsWord w → allBlank w = false := by
    intro w hw
    obtain ⟨c, w, rfl⟩ := exists_cons_of_ne_nil hw.ne_nil
    simp [allBlank, isBlank_of_isWordChar (hw.chars c mem_cons_self)]
  rw [allBlank, allBlank]
  induction haligned with
  | nil => rfl
  | sep _ _ ih => rw [oldText_sep, newText_sep, all_cons, all_cons, ih]
  | word hw hnew _ _ _ =>
    have hold := hword hw
    have hnew := hword (Aligned.isWord_new hy hw hnew)
    rw [allBlank] at hold hnew
    rw [oldText_word, newText_word, all_append, all_append, hold, hnew]
    rfl

end Renamed

end KrlWorkbench
