import KrlWorkbench.Proofs.Code.SpelledKeywords
import KrlWorkbench.Proofs.Pattern.Preferred

/-!
# Words in front of a type

In front of its type a line that declares variables may say `GLOBAL`, `CONST` and `DECL`.  The first
word that is none of these tells what a line is about (`mainWord?`).  A header, a signal and a type
definition have a keyword there, so a line with a type in this place is none of them
(`LineRule.find?_eq_none_of_mainWord?`).

The rule for variables has a place for each of the words in front and fills its places from the left
(`Front.exists_prefers`).  How it fills them depends on these words alone.  Hence a line in which
another type stands is read in the same way, but for the type and the column of the list
(`LineRule.exists_find?_declaration`).
-/

namespace KrlWorkbench

open List LineRule Text

variable {T' : Text} {c : Char} {rule : LineRule} {types : List Text} {a b : Pattern}
  {parts : TypedList}
variable {s w t T lead text u v code : Text} {here : Cursor} {found : Groups} {k : String}

/-! ## Words between blanks -/

namespace Text

lemma blankSeparated_append (hs : IsBlanks s) (t : Text) :
    blankSeparated (s ++ t) = blankSeparated t := by
  induction s with
  | nil => rfl
  | cons c s ih =>
    have hcut := @splitOn_append_cons _ isBlank [] (by simp) c (hs c mem_cons_self) (s ++ t)
    rw [cons_append, ← ih (forall_mem_cons.mp hs).2, blankSeparated,
      ← nil_append (c :: (s ++ t)), hcut]
    rfl

lemma IsWord.any_head?_append (hw : IsWord w) (rest : Text) :
    (w ++ rest).head?.any isBlank = false := by
  obtain ⟨c, w, rfl⟩ := exists_cons_of_ne_nil hw.ne_nil
  exact isBlank_of_isWordChar (hw.chars c mem_cons_self)

lemma IsWord.blankSeparated_append (hw : IsWord w) (hs : IsBlanks s) (hne : s ≠ []) (t : Text) :
    blankSeparated (w ++ (s ++ t)) = w :: blankSeparated t := by
  obtain ⟨c, s, rfl⟩ := exists_cons_of_ne_nil hne
  have hsolid : ∀ d ∈ w, isBlank d = false := fun d hd => isBlank_of_isWordChar (hw.chars d hd)
  rw [← Text.blankSeparated_append (forall_mem_cons.mp hs).2 t, blankSeparated,
    cons_append, splitOn_append_cons hsolid (hs c mem_cons_self),
    filter_cons_of_pos (by simpa using hw.ne_nil)]
  rfl

end Text

/-! ## Modifiers and the word behind them -/

/-- The first word that is no modifier, where blanks stand between words. -/
def mainWord? (text : Text) : Option Text :=
  (blankSeparated text).find? fun w => !isModifier w

/-- None begins with a letter that equals one outside ASCII up to case. -/
lemma isAscii_of_isModifier (hw : isModifier (c :: w) = true) : isAscii c = true := by
  have hletters : ∀ k ∈ modifiers, k.toList.head?.all
      (fun d => isAscii d && lowerAscii d != 's' && lowerAscii d != 'k') = true := by decide
  obtain ⟨k, hk, hsame⟩ := any_eq_true.mp hw
  cases hlist : k.toList with
  | nil =>
    rw [hlist] at hsame
    exact absurd (sameWord_nil_left.mp hsame) (cons_ne_nil c w)
  | cons d ds =>
    have hletter := hletters k hk
    rw [hlist] at hsame hletter
    simp only [head?_cons, Option.all_some, Bool.and_eq_true, bne_iff_ne] at hletter
    obtain ⟨⟨hascii, hs⟩, hkelvin⟩ := hletter
    rcases sameFold_cases hascii (sameWord_cons_cons.mp hsame).1 with
      ⟨hc, -⟩ | ⟨-, hlower⟩ | ⟨-, hlower⟩
    · exact hc
    · exact absurd hlower hs
    · exact absurd hlower hkelvin

namespace Modifiers

lemma append {a b : Text} (ha : Modifiers a) (hb : Modifiers b) : Modifiers (a ++ b) := by
  induction ha with
  | nil => exact hb
  | cons hw hs hne _ ih =>
    rw [append_assoc, append_assoc]
    exact .cons hw hs hne ih

lemma mainWord?_append (ht : Modifiers t) (rest : Text) :
    mainWord? (t ++ rest) = mainWord? rest := by
  induction ht with
  | nil => rfl
  | @cons w s t hw hs hne _ ih =>
    rw [append_assoc, append_assoc, mainWord?,
      (isWord_of_isModifier hw).blankSeparated_append hs hne, find?_cons_of_neg (by simp [hw])]
    exact ih

lemma head?_any (ht : Modifiers t) (hT : IsWord T) (rest : Text) :
    (t ++ (T ++ rest)).head?.any isBlank = false := by
  have hstarts := ht.startsWord_append hT rest
  cases htext : t ++ (T ++ rest) with
  | nil => rfl
  | cons c more =>
    rw [htext] at hstarts
    exact isBlank_of_isWordChar hstarts

lemma isBlank_or_isWordChar (ht : Modifiers t) :
    ∀ c ∈ t, isBlank c = true ∨ isWordChar c = true := by
  induction ht with
  | nil => simp
  | cons hw hs _ _ ih =>
    simp only [forall_mem_append]
    exact ⟨fun c hc => .inr ((isWord_of_isModifier hw).chars c hc), fun c hc => .inl (hs c hc), ih⟩

end Modifiers

lemma mainWord?_eq_some {front : Text} (hlead : IsBlanks lead) (hfront : Modifiers front)
    (hw : IsWord w) (hnot : isModifier w = false) (hs : IsBlanks s) (hne : s ≠ []) (rest : Text) :
    mainWord? (lead ++ (front ++ (w ++ (s ++ rest)))) = some w := by
  rw [mainWord?, blankSeparated_append hlead]
  exact (hfront.mainWord?_append _).trans (by
    rw [mainWord?, hw.blankSeparated_append hs hne, find?_cons_of_pos (by simp [hnot])])

/-! ## Rules with a keyword as main word -/

namespace LineRule

open Pattern

/-- The pattern fits at the start of the text. -/
def FitsStart (p : Pattern) (text : Text) : Prop :=
  ∃ u v found, text = u ++ v ∧ Fits p (between [] text) u v found

lemma FitsStart.front (h : FitsStart (a ++ b) text) : FitsStart a text := by
  obtain ⟨_, v, _, htext, hfits⟩ := h
  obtain ⟨u, u', f, _, rfl, -, hfits, -⟩ := hfits.exists_of_append
  exact ⟨u, u' ++ v, f, by rw [htext, append_assoc], hfits⟩

/-- What stands in front of the main word. -/
def IsFront (u : Text) : Prop :=
  ∃ lead m, u = lead ++ m ∧ IsBlanks lead ∧ Modifiers m

lemma isFront_of_fits_append (ha : ∀ {here u v found}, Fits a here u v found → IsFront u)
    (hb : ∀ {here u v found}, Fits b here u v found → Modifiers u)
    (h : Fits (a ++ b) here u v found) : IsFront u := by
  obtain ⟨_, m', _, _, rfl, -, hfront, hmore⟩ := h.exists_of_append
  obtain ⟨lead, m, rfl, hlead, hm⟩ := ha hfront
  exact ⟨lead, m ++ m', append_assoc .., hlead, hm.append (hb hmore)⟩

lemma isFront_of_fits_indent (h : Fits indent here u v found) : IsFront u :=
  ⟨u, [], by simp, (blank_of_fits_indent h).2.1, .nil⟩

lemma skipped_of_fits_maybe {i : Nat} (h : Fits (maybe i k) here u v found) : Skipped k u := by
  refine skipped_of_fits_option (fun hfits => ?_) h
  cases hfits with
  | group _ hword => exact hword.sameWord_of_word.1

/-- Where a rule wants a keyword behind modifiers, the keyword is the main word. -/
lemma exists_mainWord?_of_fitsStart {front word : Pattern} {ks : List String}
    (hks : ∀ k ∈ ks, isIdentifier k.toList = true ∧ isModifier k.toList = false)
    (hfront : ∀ {here u v found}, Fits front here u v found → IsFront u)
    (hword : ∀ {here u v found}, Fits word here u v found → ∃ k ∈ ks, sameWord k.toList u = true)
    (h : FitsStart (front ++ word ++ gap) text) :
    ∃ w, mainWord? text = some w ∧ ∃ k ∈ ks, sameWord k.toList w = true := by
  obtain ⟨_, v, _, rfl, hfits⟩ := h
  obtain ⟨_, s, _, _, rfl, -, hfits, hgap⟩ := hfits.exists_of_append
  obtain ⟨_, w, _, _, rfl, -, hlead, hkeyword⟩ := hfits.exists_of_append
  obtain ⟨lead, m, rfl, hlead, hm⟩ := hfront hlead
  obtain ⟨k, hk, hsame⟩ := hword hkeyword
  obtain ⟨hs, hne⟩ := hgap.forall_of_gap
  refine ⟨w, ?_, k, hk, hsame⟩
  simp only [append_assoc]
  exact mainWord?_eq_some hlead hm (isWord_of_sameName (hks k hk).1 hsame)
    ((isModifier_eq_of_sameWord hsame).trans (hks k hk).2) hs hne v

/-- The keywords of headers, signals and type definitions. -/
def mainKeywords : List String :=
  ["DEF", "DEFFCT", "SIGNAL", "STRUC", "ENUM"]

/-- The rules for them. -/
def keywordRules : List LineRule :=
  [.routineHeader, .functionHeader, .signal, .typeDefinition]

lemma exists_mainWord?_of_holds (hrule : rule ∈ keywordRules) (h : rule.holds text = true) :
    ∃ w, mainWord? text = some w ∧ ∃ k ∈ mainKeywords, sameWord k.toList w = true := by
  have hks : ∀ k ∈ mainKeywords, isIdentifier k.toList = true ∧ isModifier k.toList = false := by
    decide
  have hstart : ∀ rule ∈ keywordRules, rule.pattern.startsText = true := by decide
  have hfits : FitsStart rule.pattern text := exists_fits_of_holds (hstart rule hrule) h
  have hglobal : ∀ {here u v found}, Fits (indent ++ maybe 1 "GLOBAL") here u v found → IsFront u :=
    isFront_of_fits_append isFront_of_fits_indent fun hfits =>
      (skipped_of_fits_maybe hfits).modifiers (by decide)
  have hkeyword : ∀ {k : String}, k ∈ mainKeywords → ∀ {here u v found},
      Fits (keyword k) here u v found → ∃ k ∈ mainKeywords, sameWord k.toList u = true :=
    fun hk _ _ _ _ hfits => ⟨_, hk, hfits.sameWord_of_word.1⟩
  simp only [keywordRules, mem_cons, not_mem_nil, or_false] at hrule
  rcases hrule with rfl | rfl | rfl | rfl
  · exact exists_mainWord?_of_fitsStart hks hglobal (hkeyword (by decide)) hfits.front.front
  · exact exists_mainWord?_of_fitsStart hks hglobal (hkeyword (by decide))
      hfits.front.front.front.front
  · exact exists_mainWord?_of_fitsStart hks hglobal (hkeyword (by decide))
      hfits.front.front.front.front
  · have hmore : ∀ {here u v found},
        Fits (indent ++ maybe 1 "GLOBAL" ++ skip "DECL" ++ maybe 2 "GLOBAL") here u v found →
          IsFront u :=
      isFront_of_fits_append
        (isFront_of_fits_append hglobal fun hfits =>
          (skipped_of_fits_skip hfits).modifiers (by decide))
        fun hfits => (skipped_of_fits_maybe hfits).modifiers (by decide)
    refine exists_mainWord?_of_fitsStart hks hmore (fun hfits => ?_) hfits.front.front.front.front
    have hkinds : ∀ k ∈ ["STRUC", "ENUM"], k ∈ mainKeywords := by decide
    cases hfits with
    | group _ hword =>
      obtain ⟨k, hk, hsame⟩ := hword.exists_keyword
      exact ⟨k, hkinds k hk, hsame⟩

/-- **A line with another main word is no header, no signal and no type definition.** -/
lemma find?_eq_none_of_mainWord? (hrule : rule ∈ keywordRules)
    (hmain : mainWord? text = some w) (hw : ∀ k ∈ mainKeywords, sameWord k.toList w = false) :
    rule.find? text = none := by
  by_contra hsome
  obtain ⟨w', hmain', k, hk, hsame⟩ :=
    exists_mainWord?_of_holds hrule (Option.isSome_iff_ne_none.mpr hsome)
  obtain rfl : w = w' := Option.some.inj (hmain.symm.trans hmain')
  rw [hw k hk] at hsame
  cases hsame

end LineRule

/-! ## The rule for variables -/

/-- A word that is read as a type where the main word of a line stands. -/
structure IsTypeWord (T : Text) : Prop where
  identifier : isIdentifier T = true
  not_modifier : isModifier T = false
  not_keyword : ∀ k ∈ mainKeywords, sameWord k.toList T = false

lemma IsTypeWord.isWord (hT : IsTypeWord T) : IsWord T :=
  isWord_of_isIdentifier hT.identifier

lemma IsTypeWord.of_sameName (hT : IsTypeWord T) (h : sameName T' T = true) :
    IsTypeWord T' := by
  have hsame : sameWord T T' = true := sameWord_of_upper_eq (beq_iff_eq.mp h).symm
  refine ⟨isIdentifier_of_sameName hT.identifier h,
    (isModifier_eq_of_sameWord hsame).trans hT.not_modifier, fun k hk => ?_⟩
  rw [sameWord, ← sameWord_iff.mp hsame]
  exact hT.not_keyword k hk

namespace LineRule

open Pattern

lemma isRun_of_isIdentifier (hT : isIdentifier T = true) :
    IsRun (fun c => anyCaseInitial c || c == '$') isNamePart T := by
  cases T with
  | nil => cases hT
  | cons c rest =>
    have hword := isWord_of_isIdentifier hT
    have hinitial : anyCaseInitial c = true :=
      anyCaseInitial_of_sameWord hT (sameWord_refl (c :: rest))
    refine ⟨c, rest, rfl, by simp [hinitial], fun d hd => ?_⟩
    exact isNamePart_of_isWordChar (hword.chars d (mem_cons_of_mem _ hd))

lemma isNamePart_of_isBlank (hc : isBlank c = true) : isNamePart c = false := by
  have hdollar : c ≠ '$' := by
    rintro rfl
    exact absurd hc (by decide)
  simp [isNamePart, isWordChar_of_isBlank hc, hdollar]

/-- The words that the rule for variables lets be left out, with the groups for them. -/
def frontWords : List (Nat × String) :=
  [(1, "GLOBAL"), (2, "CONST"), (3, "DECL"), (4, "GLOBAL"), (5, "CONST")]

/-- Words that may be left out, in a row. -/
def maybes : List (Nat × String) → Pattern
  | [] => .empty
  | r :: rs => maybe r.1 r.2 ++ maybes rs

/-- Some of the words, in their order, each with blanks behind it. -/
inductive Front : List (Nat × String) → Text → Prop
  | nil : Front [] []
  | absent {r : Nat × String} {rs : List (Nat × String)} {t : Text} (h : Front rs t) :
      Front (r :: rs) t
  | present {r : Nat × String} {rs : List (Nat × String)} {w s t : Text}
      (hw : sameWord r.2.toList w = true) (hs : IsBlanks s) (hne : s ≠ []) (h : Front rs t) :
      Front (r :: rs) (w ++ (s ++ t))

lemma front_of_fits {rs : List (Nat × String)} (h : Fits (maybes rs) here u v found) :
    Front rs u := by
  induction rs generalizing here u found with
  | nil =>
    cases h with
    | empty => exact .nil
  | cons r rs ih =>
    obtain ⟨_, t, _, _, rfl, -, hmaybe, hrest⟩ := h.exists_of_append
    rcases skipped_of_fits_maybe hmaybe with rfl | ⟨w, s, rfl, hw, hs, hne⟩
    · exact .absent (ih hrest)
    · rw [append_assoc]
      exact .present hw hs hne (ih hrest)

namespace Front

variable {rs : List (Nat × String)} {t : Text}

/-- With more words to choose from a row is still one. -/
lemma exists_word (h : Front rs t) (hrs : ∀ r ∈ rs, r.2 ∈ modifiers) :
    t = [] ∨ ∃ w s t', t = w ++ (s ++ t') ∧ isModifier w = true ∧ IsBlanks s ∧ s ≠ [] ∧
      Front rs t' := by
  induction h with
  | nil => exact .inl rfl
  | absent h ih =>
    rcases ih (forall_mem_cons.mp hrs).2 with
      rfl | ⟨w, s, t', rfl, hw, hs, hne, h'⟩
    · exact .inl rfl
    · exact .inr ⟨w, s, t', rfl, hw, hs, hne, .absent h'⟩
  | present hw hs hne h _ =>
    exact .inr ⟨_, _, _, rfl, isModifier_of_sameWord (hrs _ mem_cons_self) hw, hs, hne,
      .absent h⟩

lemma modifiers (h : Front rs t) (hrs : ∀ r ∈ rs, r.2 ∈ modifiers) : Modifiers t := by
  induction h with
  | nil => exact .nil
  | absent _ ih => exact ih (forall_mem_cons.mp hrs).2
  | present hw hs hne _ ih =>
    exact .cons (isModifier_of_sameWord (hrs _ mem_cons_self) hw) hs hne
      (ih (forall_mem_cons.mp hrs).2)

/-- **The places are filled from the left.**  Which of them are, the words alone decide, as long as
no other word of the kind follows. -/
lemma exists_prefers (hrs : ∀ r ∈ rs, r.2 ∈ KrlWorkbench.modifiers) (h : Front rs t) (x : Text) :
    ∃ found, ∀ {T rest}, IsWord T → isModifier T = false → startsWord rest = false →
      Prefers (maybes rs) x t (T ++ rest) found := by
  induction rs generalizing t x with
  | nil =>
    cases h with
    | nil => exact ⟨[], fun _ _ _ => .empty x _⟩
  | cons r rs ih =>
    have hr := hrs r mem_cons_self
    have hrs' : ∀ r ∈ rs, r.2 ∈ KrlWorkbench.modifiers :=
      (forall_mem_cons.mp hrs).2
    have hnames : ∀ k ∈ KrlWorkbench.modifiers, isIdentifier k.toList = true := by decide
    -- The next place is filled if the next word is its own, and only then.
    have hpresent : ∀ {w s t : Text}, sameWord r.2.toList w = true → IsBlanks s → s ≠ [] →
        Front rs t → ∃ found, ∀ {T rest}, IsWord T → isModifier T = false →
          startsWord rest = false →
          Prefers (maybes (r :: rs)) x (w ++ (s ++ t)) (T ++ rest) found := by
      intro w s t hw hs hne h
      obtain ⟨found, hfound⟩ := ih hrs' h (x ++ (w ++ s))
      refine ⟨found ++ [(r.1, ⟨byteLength x, w⟩)], fun hT hnot hrest => ?_⟩
      have hseq := (Prefers.maybe_present r.1 hw hs hne ((h.modifiers hrs').head?_any hT _) x).seq
        (hfound hT hnot hrest)
      rwa [append_assoc] at hseq
    have habsent : Front rs t → (∀ {T rest}, IsWord T → isModifier T = false →
        startsWord rest = false →
        sameWord r.2.toList ((t ++ (T ++ rest)).takeWhile isWordChar) = false) →
        ∃ found, ∀ {T rest}, IsWord T → isModifier T = false → startsWord rest = false →
          Prefers (maybes (r :: rs)) x t (T ++ rest) found := by
      intro h hfirst
      obtain ⟨found, hfound⟩ := ih hrs' h (x ++ [])
      refine ⟨found ++ [], fun hT hnot hrest => ?_⟩
      exact (Prefers.maybe_absent r.1 (hnames _ hr) (hfirst hT hnot hrest) x).seq
        (hfound hT hnot hrest)
    cases h with
    | present hw hs hne h => exact hpresent hw hs hne h
    | absent h =>
      rcases h.exists_word hrs' with rfl | ⟨w, s, t', rfl, hw, hs, hne, h'⟩
      · refine habsent h fun hT hnot hrest => ?_
        rw [nil_append, hT.takeWhile_append hrest, ← Bool.not_eq_true]
        intro hsame
        rw [isModifier_of_sameWord hr hsame] at hnot
        cases hnot
      · cases hsame : sameWord r.2.toList w with
        | true => exact hpresent hsame hs hne h'
        | false =>
          refine habsent h fun _ _ _ => ?_
          rwa [append_assoc, append_assoc,
            (isWord_of_isModifier hw).takeWhile_append (startsWord_blanks_append hs hne _)]

end Front

/-- The rule, with the words in front in one list. -/
def typedPattern : Pattern :=
  indent ++ maybes frontWords ++ .group 6 systemName ++ gap ++
    .group 7 (.one isSolid ++ .many isInLine) ++ .textEnd

lemma run_declaration_pattern {β : Type} (here : Cursor) (groups : Groups)
    (next : Cursor → Groups → Option β) :
    declaration.pattern.run here groups next = typedPattern.run here groups next :=
  rfl

/-- A line that declares variables: the words in front of the type, the type and the list. -/
structure TypedLine (code lead front T s list : Text) : Prop where
  eq : code = lead ++ (front ++ (T ++ (s ++ list)))
  isBlanks_lead : IsBlanks lead
  front : Front frontWords front
  isBlanks : IsBlanks s
  ne_nil : s ≠ []
  isRun : IsRun isSolid isInLine list

lemma exists_typedLine {m : Match} (h : declaration.find? code = some m) :
    ∃ lead front T s list, TypedLine code lead front T s list ∧
      m.group? 6 = some ⟨byteLength (lead ++ front), T⟩ := by
  rw [find?, find?_of_startsText rfl] at h
  obtain ⟨⟨_, there⟩, hmatch, rfl⟩ := Option.map_eq_some_iff.mp h
  rw [matchAt, run_declaration_pattern] at hmatch
  obtain ⟨u, v, found, hcode, hfits, hnext⟩ := exists_fits_of_run hmatch
  obtain ⟨rfl, -⟩ := Prod.mk.inj (Option.some.inj hnext)
  obtain ⟨_, _, _, _, rfl, rfl, hfits, hend⟩ := hfits.exists_of_append
  obtain ⟨_, list, _, _, rfl, rfl, hfits, hlist⟩ := hfits.exists_of_append
  obtain ⟨_, s, _, _, rfl, rfl, hfits, hgap⟩ := hfits.exists_of_append
  obtain ⟨_, T, _, _, rfl, rfl, hfits, htype⟩ := hfits.exists_of_append
  obtain ⟨lead, front, _, _, rfl, rfl, hlead, hfront⟩ := hfits.exists_of_append
  obtain ⟨hblanks, hne⟩ := hgap.forall_of_gap
  have hgroups := hgap.lookup_eq_none (i := 6) rfl
  cases hend with
  | textEnd =>
    cases htype with
    | group _ htype =>
      cases hlist with
      | group _ hlist =>
        refine ⟨lead, front, T, s, list, ⟨by simpa using hcode,
          (blank_of_fits_indent hlead).2.1, front_of_fits hfront, hblanks, hne,
          hlist.isRun⟩, ?_⟩
        simp [Match.group?, lookup_append, lookup_cons, hgroups,
          hlist.lookup_eq_none rfl, Cursor.skip, between]

/-- **The type does not matter.** The words in front are read in the same way, whichever type stands
behind them. -/
lemma find?_declaration {front : Text} {g : Groups} (hlead : IsBlanks lead)
    (hfront : Modifiers front) (hg : ∀ {T rest}, IsWord T → isModifier T = false →
      startsWord rest = false → Prefers (maybes frontWords) lead front (T ++ rest) g)
    (hT : IsTypeWord T) (hs : IsBlanks s) (hne : s ≠ []) {list : Text}
    (hlist : IsRun isSolid isInLine list) :
    declaration.find? (lead ++ (front ++ (T ++ (s ++ list)))) =
      some ⟨⟨0, lead ++ (front ++ (T ++ (s ++ list)))⟩,
        (7, ⟨byteLength (lead ++ (front ++ (T ++ s))), list⟩) ::
          (6, ⟨byteLength (lead ++ front), T⟩) :: g⟩ := by
  have hgap : ∀ rest, (s ++ rest).head?.any isNamePart = false := by
    intro rest
    obtain ⟨c, s, rfl⟩ := exists_cons_of_ne_nil hne
    exact isNamePart_of_isBlank (hs c mem_cons_self)
  have hsolid : (list ++ []).head?.any isBlank = false :=
    hlist.head?_any (fun c hc => by simpa [isSolid] using hc) []
  have hlead' := fun rest => (Prefers.indent hlead (hfront.head?_any hT.isWord (s ++ rest))).seq
    (hg hT.isWord hT.not_modifier (startsWord_blanks_append hs hne rest))
  have hshape : Prefers typedPattern [] _ _ _ :=
    ((((hlead' _).seq (.group 6 (.run (isRun_of_isIdentifier hT.identifier) (hgap _) _))).seq
      (.gap hs hne hsolid _)).seq (.group 7 (.run hlist rfl _))).seq_absent (.textEnd _)
  have hfind : declaration.find? _ = _ := find?_of_prefers (p := declaration.pattern) hshape
  simpa using hfind

namespace TypedLine

variable {code lead front T s list : Text} (h : TypedLine code lead front T s list)
  (hT : IsTypeWord T)
include h

lemma modifiers : Modifiers front :=
  h.front.modifiers (by decide)

lemma withType (T' : Text) :
    TypedLine (lead ++ (front ++ (T' ++ (s ++ list)))) lead front T' s list :=
  { h with eq := rfl }

include hT

lemma not_allBlank : allBlank code = false := by
  obtain ⟨c, w, hw⟩ := exists_cons_of_ne_nil hT.isWord.ne_nil
  have hc : isBlank c = false := isBlank_of_isWordChar (hT.isWord.chars c (by simp [hw]))
  simp [h.eq, allBlank, hw, hc]

lemma find?_eq_none (hrule : rule ∈ keywordRules) : rule.find? code = none := by
  refine find?_eq_none_of_mainWord? hrule ?_ hT.not_keyword
  rw [h.eq]
  exact mainWord?_eq_some h.isBlanks_lead h.modifiers hT.isWord hT.not_modifier h.isBlanks h.ne_nil
    list

/-- **The first word that reads like the type is the type.** -/
lemma exists_find?_wholeWord :
    ∃ m, (wholeWord T).find? code = some m ∧ m.whole = ⟨byteLength (lead ++ front), T⟩ := by
  rw [h.eq]
  exact h.modifiers.exists_find? h.isBlanks_lead hT.identifier hT.not_modifier (sameWord_refl T)
    (startsWord_blanks_append h.isBlanks h.ne_nil list)

end TypedLine

end LineRule

lemma TypedList.exists_typedLine (h : ofCode? types code = some parts) :
    ∃ lead front s list, TypedLine code lead front parts.typeName s list ∧
      (declaration.find? code).bind (·.group? 6) =
        some ⟨byteLength (lead ++ front), parts.typeName⟩ := by
  simp only [ofCode?, Option.bind_eq_bind, Option.bind_eq_some_iff] at h
  obtain ⟨m, hm, list, -, h⟩ := h
  split_ifs at h
  obtain rfl := Option.some.inj h
  obtain ⟨lead, front, T, s, list, htyped, hgroup⟩ := LineRule.exists_typedLine hm
  have htext : m.text 6 = T := by rw [Match.text, hgroup]; rfl
  rw [htext]
  exact ⟨lead, front, s, list, htyped, by rw [hm]; exact hgroup⟩

/-- How a typed line is read, whichever type stands in it. -/
lemma TypedList.exists_ofCode?_eq {front : Text} (hlead : IsBlanks lead)
    (hfront : Front frontWords front) :
    ∃ isGlobal isConst isExplicit, ∀ types {T s list}, IsTypeWord T → IsBlanks s → s ≠ [] →
      IsRun isSolid isInLine list →
      ofCode? types (lead ++ (front ++ (T ++ (s ++ list)))) =
        if notTypes.contains (upper T) then none
        else if !isExplicit && !BuiltinType.isBuiltinType T && !types.contains (upper T) then none
        else if !isExplicit && !isConst && !isGlobal && (trimStart list).head? == some '=' then none
        else some ⟨isGlobal, isExplicit, T, list, byteLength (lead ++ (front ++ (T ++ s)))⟩ := by
  have hwords : ∀ r ∈ frontWords, r.2 ∈ modifiers := by decide
  obtain ⟨g, hg⟩ := hfront.exists_prefers hwords lead
  let found : Match := ⟨⟨0, []⟩, g⟩
  refine ⟨found.has 1 || found.has 4, found.has 2 || found.has 5, found.has 3,
    fun types {T s list} hT hs hne hlist => ?_⟩
  rw [ofCode?, find?_declaration hlead (hfront.modifiers hwords) hg hT hs hne hlist]
  rfl

/-- **Another type.**  With a type that is built in the line declares the same list. -/
lemma TypedList.ofCode?_withType {front list : Text}
    (h : TypedLine code lead front T s list) (hT : IsTypeWord T) (hT' : IsTypeWord T')
    (hproper : notTypes.contains (upper T') = false)
    (hbuiltin : BuiltinType.isBuiltinType T' = true) (hparts : ofCode? types code = some parts) :
    ofCode? types (lead ++ (front ++ (T' ++ (s ++ list)))) =
      some { parts with
        typeName := T', listStart := byteLength (lead ++ (front ++ (T' ++ s))) } := by
  obtain ⟨_, _, _, hread⟩ := exists_ofCode?_eq h.isBlanks_lead h.front
  rw [h.eq, hread types hT h.isBlanks h.ne_nil h.isRun] at hparts
  rw [hread types hT' h.isBlanks h.ne_nil h.isRun, hproper, hbuiltin]
  split_ifs at hparts with _ _ hassigned
  obtain rfl := Option.some.inj hparts
  simp [hassigned]

end KrlWorkbench
