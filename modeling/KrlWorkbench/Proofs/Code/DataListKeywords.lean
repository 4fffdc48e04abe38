import KrlWorkbench.Proofs.Code.Declarators
import KrlWorkbench.Proofs.Code.TypedLines

/-!
# Keywords of data lists

Which visibility a declaration has, and in which list it stands, is read off single keywords of the
lines: `GLOBAL` with a blank behind it, `DECL` in front, `DEFDAT` with a name, `ENDDAT` anywhere.
A keyword that may stand anywhere is found in two texts put together if it is found in one of them,
as long as no word runs on from the first into the second (`says_append`).

So it can be said what a line is without the `GLOBAL` that is found first in it.  It says `GLOBAL`
if there was a second one behind (`FirstGlobal.holds_without`), and it declares what it declared
before (`FirstGlobal.declares_without`).
-/

namespace KrlWorkbench

open List BlockKind Text

variable {a b x w s t text z u code lead : Text} {k : String}

/-! ## Words in two texts put together -/

namespace Text

/-- A word in two texts put together, where none runs on from one into the other: there is more of
the first text behind it, or it stands in the second. -/
lemma exists_append_of_isWord {y : Text} (hw : IsWord w) (ha : endsWord a = false)
    (h : x ++ (w ++ y) = a ++ b) :
    (∃ y', y' ≠ [] ∧ a = x ++ (w ++ y') ∧ y = y' ++ b) ∨
      ∃ x', x = a ++ x' ∧ b = x' ++ (w ++ y) := by
  rcases append_eq_append_iff.mp h.symm with ⟨x', rfl, rfl⟩ | ⟨u, rfl, hu⟩
  · exact .inr ⟨x', rfl, rfl⟩
  · rcases append_eq_append_iff.mp hu with ⟨y', rfl, rfl⟩ | ⟨v, rfl, rfl⟩
    · refine .inl ⟨y', ?_, rfl, rfl⟩
      rintro rfl
      rw [append_nil, endsWord_append hw.ne_nil, hw.endsWord] at ha
      cases ha
    · -- The first text ends in the middle of the word, or in front of it.
      by_cases hnil : u = []
      · subst hnil
        exact .inr ⟨[], by simp, rfl⟩
      · have hword : IsWord u := ⟨hnil, fun c hc => hw.chars c (mem_append_left _ hc)⟩
        rw [endsWord_append hnil, hword.endsWord] at ha
        cases ha

lemma IsWord.exists_append {y : Text} (hw : IsWord w) (ha : Text.endsWord a = false)
    (h : w ++ y = a ++ b) : a = [] ∨ ∃ y', y' ≠ [] ∧ a = w ++ y' ∧ y = y' ++ b := by
  rcases exists_append_of_isWord (x := []) hw ha h with hfirst | ⟨x', hx, -⟩
  · exact .inr hfirst
  · exact .inl (append_eq_nil_iff.mp hx.symm).1

lemma IsBlanks.exists_append (hs : IsBlanks s) (hb : b.head?.any isBlank = false)
    (h : s ++ t = a ++ b) : ∃ a', a = s ++ a' ∧ t = a' ++ b := by
  rcases append_eq_append_iff.mp h with ⟨a', rfl, rfl⟩ | ⟨u, rfl, rfl⟩
  · exact ⟨a', rfl, rfl⟩
  · cases u with
    | nil => exact ⟨[], by simp, rfl⟩
    | cons c u =>
      have hc : isBlank c = true := hs c (by simp)
      rw [cons_append, head?_cons, Option.any_some, hc] at hb
      cases hb

end Text

/-! ## Keywords anywhere in a line -/

/-- The text holds a word that reads like `k`.  No word runs on into it, and what follows, if
anything does, is as `next` says. -/
def Says (k : Text) (next : Option Char → Bool) (text : Text) : Prop :=
  ∃ a w b, text = a ++ (w ++ b) ∧ sameWord k w = true ∧ endsWord a = false ∧ next b.head? = true

section Says

variable {k : Text} {next : Option Char → Bool} {a b s t : Text}

lemma says_append (hk : isIdentifier k = true) (ha : endsWord a = false) :
    Says k next (a ++ b) ↔ Says k next a ∨ Says k next b := by
  constructor
  · rintro ⟨x, w, y, heq, hw, hx, hy⟩
    rcases exists_append_of_isWord (isWord_of_sameName hk hw) ha heq.symm with
      ⟨y', hne, rfl, rfl⟩ | ⟨x', rfl, rfl⟩
    · obtain ⟨c, y', rfl⟩ := exists_cons_of_ne_nil hne
      exact .inl ⟨x, w, c :: y', rfl, hw, hx, hy⟩
    · exact .inr ⟨x', w, y, rfl, hw, endsWord_of_append hx, hy⟩
  · rintro (⟨x, w, y, rfl, hw, hx, hy⟩ | ⟨x, w, y, rfl, hw, hx, hy⟩)
    · cases y with
      | nil =>
        have hword := isWord_of_sameName hk hw
        rw [append_nil, endsWord_append hword.ne_nil, hword.endsWord] at ha
        cases ha
      | cons c y => exact ⟨x, w, c :: (y ++ b), by simp, hw, hx, hy⟩
    · exact ⟨a ++ x, w, y, by simp, hw, endsWord_append_of_false ha hx, hy⟩

lemma not_says_of_isBlanks (hk : isIdentifier k = true) (hs : IsBlanks s) : ¬Says k next s := by
  rintro ⟨x, w, y, rfl, hw, -, -⟩
  have hword := isWord_of_sameName hk hw
  obtain ⟨c, w, rfl⟩ := exists_cons_of_ne_nil hword.ne_nil
  have hblank : isBlank c = true := hs c (by simp)
  rw [isBlank_of_isWordChar (hword.chars c mem_cons_self)] at hblank
  cases hblank

lemma says_blanks_append (hk : isIdentifier k = true) (hs : IsBlanks s) :
    Says k next (s ++ t) ↔ Says k next t := by
  rw [says_append hk (endsWord_of_isBlanks hs), or_iff_right (not_says_of_isBlanks hk hs)]

end Says

namespace Pattern

variable {p : Pattern} {m : Match}

lemma isIn_wholeWord_iff (hx : isIdentifier x = true) :
    (wholeWord x).isIn text = true ↔ Says x (fun c => !c.any isWordChar) text := by
  constructor
  · intro h
    obtain ⟨m, hm⟩ := Option.isSome_iff_exists.mp h
    obtain ⟨a, b, there, rfl, hmatch, -⟩ := exists_matchAt_of_find? hm
    obtain ⟨w, r, rfl, hw, ha, hr, -⟩ := (matchAt_wholeWord_iff hx).mp hmatch
    exact ⟨a, w, r, rfl, hw, ha, by simpa [startsWord] using hr⟩
  · rintro ⟨a, w, b, rfl, hw, ha, hb⟩
    exact isIn_of_standsIn hx hw ⟨a, b, rfl, ha, by simpa [startsWord] using hb⟩

end Pattern

/-! ## The first `GLOBAL` of a line -/

namespace Pattern

lemma isWordBoundary_between (hx : endsWord x = false) (hw : IsWord w) (v : Text) :
    isWordBoundary (between x (w ++ v)).before.head? (w ++ v).head? = true := by
  rw [between, isWordBoundary_reverse, hx, hw.startsWord_append]
  rfl

lemma Prefers.wordBoundary {x w : Text} (hx : endsWord x = false) (hw : IsWord w) (v : Text) :
    Prefers .wordBoundary x [] (w ++ v) [] := by
  intro β groups next result h
  rw [append_nil] at h
  rw [nil_append, Pattern.run, between_rest, if_pos (isWordBoundary_between hx hw v)]
  exact h

end Pattern

namespace LineRule

open Pattern

lemma prefers_globalKeyword (hw : sameWord "GLOBAL".toList w = true) (ha : endsWord a = false)
    (hs : IsBlanks s) (hne : s ≠ []) (hz : z.head?.any isBlank = false) :
    Prefers globalKeyword.pattern a (w ++ s) z [] := by
  have hboundary := Prefers.wordBoundary ha (isWord_of_global hw) (s ++ z)
  have hword := hboundary.seq (Prefers.word hw (a ++ []) (s ++ z))
  exact hword.seq (.gap hs hne hz _)

/-- What fits is the word with no word in front of it and blanks behind it. -/
lemma exists_of_fits_globalKeyword {v : Text} {found : Groups}
    (h : Fits globalKeyword.pattern (between a (u ++ v)) u v found) :
    ∃ w s, u = w ++ s ∧ sameWord "GLOBAL".toList w = true ∧ endsWord a = false ∧ IsBlanks s ∧
      s ≠ [] := by
  obtain ⟨u, s, _, _, rfl, -, hfits, hgap⟩ := h.exists_of_append
  obtain ⟨b, w, _, _, rfl, -, hboundary, hword⟩ := hfits.exists_of_append
  obtain ⟨hs, hne⟩ := hgap.forall_of_gap
  have hw := hword.sameWord_of_word.1
  cases hboundary with
  | wordBoundary hboundary =>
    refine ⟨w, s, rfl, hw, ?_, hs, hne⟩
    rw [append_assoc, between, isWordBoundary_reverse,
      (isWord_of_global hw).startsWord_append] at hboundary
    simpa using hboundary

lemma isSome_matchAt_globalKeyword (hw : sameWord "GLOBAL".toList w = true)
    (ha : endsWord a = false) (hb : b.head?.any isBlank = true) :
    (globalKeyword.pattern.matchAt (between a (w ++ b))).isSome = true := by
  have hblanks : IsBlanks (b.takeWhile isBlank) := fun c hc => mem_takeWhile_imp hc
  have hne : b.takeWhile isBlank ≠ [] := by
    cases b with
    | nil => cases hb
    | cons c b => simp [show isBlank c = true from hb]
  have hmatch := matchAt_of_prefers
    (prefers_globalKeyword hw ha hblanks hne (any_head?_dropWhile isBlank b))
  rw [append_assoc, takeWhile_append_dropWhile] at hmatch
  exact Option.isSome_iff_exists.mpr ⟨_, hmatch⟩

lemma holds_globalKeyword_iff :
    globalKeyword.holds text = true ↔ Says "GLOBAL".toList (·.any isBlank) text := by
  constructor
  · intro h
    obtain ⟨m, hm⟩ := Option.isSome_iff_exists.mp h
    obtain ⟨a, u, v, rfl, -, hfits⟩ := matches_of_find? hm
    obtain ⟨w, s, rfl, hw, ha, hs, hne⟩ := exists_of_fits_globalKeyword hfits
    obtain ⟨c, s, rfl⟩ := exists_cons_of_ne_nil hne
    exact ⟨a, w, c :: (s ++ v), by simp, hw, ha, hs c mem_cons_self⟩
  · rintro ⟨a, w, b, rfl, hw, ha, hb⟩
    exact isIn_of_matchAt (isSome_matchAt_globalKeyword hw ha hb)

/-- The code with the `GLOBAL` in it that a search finds: what stands in front, the word, the blanks
and what follows. -/
structure FirstGlobal (code a w s z : Text) : Prop where
  eq : code = a ++ (w ++ (s ++ z))
  sameWord : sameWord "GLOBAL".toList w = true
  start : endsWord a = false
  isBlanks : IsBlanks s
  ne_nil : s ≠ []
  stop : z.head?.any isBlank = false
  first : globalKeyword.holds a = false

lemma exists_firstGlobal {m : Match} (h : globalKeyword.find? code = some m) :
    ∃ a w s z, FirstGlobal code a w s z ∧ m.whole = ⟨byteLength a, w ++ s⟩ := by
  obtain ⟨a, b, there, rfl, hmatch, hleft⟩ := exists_matchAt_of_find? h
  obtain ⟨u, v, found, hb, hfits, -⟩ := exists_fits_of_run hmatch
  obtain rfl : b = u ++ v := hb
  obtain ⟨w, s, rfl, hw, ha, hs, hne⟩ := exists_of_fits_globalKeyword hfits
  -- The blanks that the search takes are all that stand there.
  have hblanks : IsBlanks (s ++ v.takeWhile isBlank) := by
    intro c hc
    exact (mem_append.mp hc).elim (hs c) mem_takeWhile_imp
  have hcut : w ++ s ++ v = w ++ (s ++ v.takeWhile isBlank) ++ v.dropWhile isBlank := by
    rw [append_assoc, append_assoc, append_assoc, takeWhile_append_dropWhile]
  have hstop := any_head?_dropWhile isBlank v
  have hlong := matchAt_of_prefers (prefers_globalKeyword hw ha hblanks (by simp [hne]) hstop)
  rw [hcut] at hmatch hleft ⊢
  obtain ⟨rfl, -⟩ := Prod.mk.inj (Option.some.inj (hmatch.symm.trans hlong))
  refine ⟨a, w, _, _, ⟨by simp, hw, ha, hblanks, by simp [hne], hstop, ?_⟩, rfl⟩
  rw [← Bool.not_eq_true]
  intro hfirst
  obtain ⟨x, w', y, rfl, hw', hx, hy⟩ := holds_globalKeyword_iff.mp hfirst
  have hnone := hleft x (w' ++ y) rfl (by simp [(isWord_of_global hw').ne_nil])
  refine absurd (isSome_matchAt_globalKeyword hw' hx ?_) (by rw [← append_assoc, hnone]; decide)
  cases y with
  | nil => cases hy
  | cons c y => exact hy

namespace FirstGlobal

variable {code a w s z s' : Text} (h : FirstGlobal code a w s z) (hs' : IsBlanks s')
include h hs'

/-- Without it the line says `GLOBAL` if it did a second time. -/
lemma holds_without : globalKeyword.holds (a ++ (s' ++ z)) = globalKeyword.holds z := by
  rw [Bool.eq_iff_iff, holds_globalKeyword_iff, holds_globalKeyword_iff,
    says_append (by decide) h.start, says_blanks_append (by decide) hs', or_iff_right]
  rw [← holds_globalKeyword_iff, h.first]
  exact Bool.false_ne_true

/-- Without it there is no word that was not there before. -/
lemma isIn_of_isIn_without {x : Text} (hx : isIdentifier x = true)
    (hin : (wholeWord x).isIn (a ++ (s' ++ z)) = true) : (wholeWord x).isIn code = true := by
  rw [isIn_wholeWord_iff hx, says_append hx h.start, says_blanks_append hx hs'] at hin
  have hend : endsWord (w ++ s) = false := by
    rw [endsWord_append h.ne_nil]
    exact endsWord_of_isBlanks h.isBlanks
  rw [isIn_wholeWord_iff hx, h.eq, says_append hx h.start, ← append_assoc, says_append hx hend]
  exact hin.imp_right .inr

end FirstGlobal

/-! ## Lines that say `DECL` -/

lemma fits_indent (hlead : IsBlanks lead) (text v : Text) :
    Fits indent (between [] text) lead v [] :=
  .seq (u := []) (.textStart rfl _) (.many _ hlead v)

/-- A line that says `DECL`, with what may stand in front of the word. -/
structure DeclaringLine (code lead g c d rest : Text) : Prop where
  eq : code = lead ++ (g ++ (c ++ (d ++ rest)))
  isBlanks_lead : IsBlanks lead
  global : Skipped "GLOBAL" g
  const : Skipped "CONST" c
  sameWord : sameWord "DECL".toList d = true
  stop : startsWord rest = false

lemma holds_declKeyword_iff :
    declKeyword.holds code = true ↔ ∃ lead g c d rest, DeclaringLine code lead g c d rest := by
  constructor
  · intro h
    obtain ⟨u, rest, found, rfl, hfits⟩ := exists_fits_of_holds rfl h
    obtain ⟨_, b, _, _, rfl, -, hfits, hboundary⟩ := hfits.exists_of_append
    obtain ⟨_, d, _, _, rfl, -, hfits, hword⟩ := hfits.exists_of_append
    obtain ⟨_, c, _, _, rfl, -, hfits, hconst⟩ := hfits.exists_of_append
    obtain ⟨lead, g, _, _, rfl, -, hlead, hglobal⟩ := hfits.exists_of_append
    have hd := hword.sameWord_of_word.1
    have hdecl : IsWord d := isWord_of_sameName (by decide) hd
    cases hboundary with
    | wordBoundary hboundary =>
      refine ⟨lead, g, c, d, rest, by simp, (blank_of_fits_indent hlead).2.1,
        skipped_of_fits_skip hglobal, skipped_of_fits_skip hconst, hd, ?_⟩
      rw [isWordBoundary_skip hdecl] at hboundary
      simpa using hboundary
  · rintro ⟨lead, g, c, d, rest, rfl, hlead, hg, hc, hd, hrest⟩
    have hdecl : IsWord d := isWord_of_sameName (by decide) hd
    have hfits : Fits declKeyword.pattern (between [] (lead ++ (g ++ (c ++ (d ++ rest)))))
        (lead ++ g ++ c ++ d ++ []) rest [] := by
      refine .seq (.seq (.seq (.seq (fits_indent hlead _ _) (hg.fits _ _)) (hc.fits _ _))
        (fits_word hd _ _)) (.wordBoundary ?_)
      rw [isWordBoundary_skip hdecl, hrest]
      rfl
    exact isIn_of_fits hfits (by simp)

/-- A text with a `GLOBAL` in it has another word in front of the `GLOBAL` or not at all. -/
lemma Skipped.exists_append (hk : isIdentifier k.toList = true)
    (hother : sameWord k.toList "GLOBAL".toList = false) {r : Text} (hu : Skipped k u)
    (ha : endsWord a = false) (hw : sameWord "GLOBAL".toList w = true) (hr : startsWord r = false)
    (h : u ++ t = a ++ (w ++ r)) : ∃ a', a = u ++ a' ∧ t = a' ++ (w ++ r) := by
  rcases hu with rfl | ⟨x, s, rfl, hx, hs, hne⟩
  · exact ⟨a, rfl, h⟩
  have hword := isWord_of_sameName hk hx
  have hglobal := isWord_of_global hw
  rw [append_assoc] at h
  rcases hword.exists_append ha h with rfl | ⟨a', -, rfl, heq⟩
  · obtain ⟨rfl, -⟩ := hword.append_inj hglobal (startsWord_blanks_append hs hne t) hr h
    rw [sameWord_eq_false hother hw] at hx
    cases hx
  · obtain ⟨a'', rfl, rfl⟩ := hs.exists_append (hglobal.any_head?_append r) heq
    exact ⟨a'', by simp, rfl⟩

/-- If the code begins with `GLOBAL` and blanks, this is the one that is found. -/
lemma FirstGlobal.eq_of_begins {w' s' : Text} (h : FirstGlobal code a w s z) (hlead : IsBlanks lead)
    (hw' : Text.sameWord "GLOBAL".toList w' = true) (hs' : IsBlanks s') (hne : s' ≠ [])
    (ht : t.head?.any isBlank = false) (hcode : code = lead ++ (w' ++ (s' ++ t))) :
    a = lead ∧ z = t := by
  have hglobal := isWord_of_global h.sameWord
  have hword := isWord_of_global hw'
  obtain ⟨a, rfl, heq⟩ := hlead.exists_append (hglobal.any_head?_append (s ++ z))
    (hcode.symm.trans h.eq)
  rcases hword.exists_append (endsWord_of_append h.start) heq with rfl | ⟨a, hnil, rfl, hbehind⟩
  · obtain ⟨rfl, hbehind⟩ := hword.append_inj hglobal (startsWord_blanks_append hs' hne t)
      (startsWord_blanks_append h.isBlanks h.ne_nil z) heq
    obtain ⟨more, rfl, rfl⟩ := h.isBlanks.exists_append ht hbehind.symm
    obtain ⟨more', hmore, -⟩ := hs'.exists_append h.stop hbehind
    obtain ⟨rfl, -⟩ : more = [] ∧ more' = [] := by simpa using hmore
    exact ⟨append_nil lead, rfl⟩
  · -- There is none further left.
    have hfirst : globalKeyword.holds (lead ++ (w' ++ a)) = true := by
      refine holds_globalKeyword_iff.mpr ⟨lead, w', a, rfl, hw',
        endsWord_of_isBlanks hlead, ?_⟩
      obtain ⟨x, s', rfl⟩ := exists_cons_of_ne_nil hne
      obtain ⟨y, a, rfl⟩ := exists_cons_of_ne_nil hnil
      obtain ⟨rfl, -⟩ := List.cons.inj hbehind
      exact hs' x mem_cons_self
    rw [h.first] at hfirst
    cases hfirst

/-- Without its first `GLOBAL` the line declares what it declared. -/
lemma FirstGlobal.declares_without {s' : Text} (h : FirstGlobal code a w s z) (hs' : IsBlanks s')
    (hdecl : declKeyword.holds code = true) : declKeyword.holds (a ++ (s' ++ z)) = true := by
  obtain ⟨lead, g, c, d, rest, hline⟩ := holds_declKeyword_iff.mp hdecl
  have hd : IsWord d := isWord_of_sameName (by decide) hline.sameWord
  rw [holds_declKeyword_iff]
  rcases hline.global with rfl | ⟨w', s₀, rfl, hw', hs₀, hne₀⟩
  · -- The `GLOBAL` stands behind `DECL`.
    have hglobal := isWord_of_global h.sameWord
    have hstop := startsWord_blanks_append h.isBlanks h.ne_nil z
    obtain ⟨a, rfl, hconst⟩ := hline.isBlanks_lead.exists_append
      (hglobal.any_head?_append (s ++ z)) (hline.eq.symm.trans h.eq)
    obtain ⟨a, rfl, hbehind⟩ := hline.const.exists_append (by decide) (by decide)
      (endsWord_of_append h.start) h.sameWord hstop hconst
    rcases hd.exists_append (endsWord_of_append (endsWord_of_append h.start)) hbehind with
      rfl | ⟨a, hne, rfl, rfl⟩
    · obtain ⟨rfl, -⟩ := hd.append_inj hglobal hline.stop hstop hbehind
      have hsame := hline.sameWord
      rw [sameWord_eq_false (by decide) h.sameWord] at hsame
      cases hsame
    · refine ⟨lead, [], c, d, a ++ (s' ++ z), by simp, hline.isBlanks_lead, .inl rfl, hline.const,
        hline.sameWord, ?_⟩
      obtain ⟨x, a, rfl⟩ := exists_cons_of_ne_nil hne
      exact hline.stop
  · -- It stands in front.
    have hfront : (c ++ (d ++ rest)).head?.any isBlank = false := by
      rcases hline.const with rfl | ⟨w, s, rfl, hw, -⟩
      · exact hd.any_head?_append rest
      · rw [append_assoc]
        exact (isWord_of_sameName (by decide) hw).any_head?_append _
    obtain ⟨rfl, rfl⟩ := h.eq_of_begins hline.isBlanks_lead hw' hs₀ hne₀ hfront
      (by rw [hline.eq, append_assoc])
    exact ⟨a ++ s', [], c, d, rest, by simp, fun x hx =>
      (mem_append.mp hx).elim (hline.isBlanks_lead x) (hs' x), .inl rfl, hline.const,
      hline.sameWord, hline.stop⟩

lemma DeclaringLine.exists_modifier {g c d rest : Text} (h : DeclaringLine code lead g c d rest) :
    ∃ w t, code = lead ++ (w ++ t) ∧ isModifier w = true ∧ startsWord t = false := by
  have hskip : ∀ {k : String} {u v : Text}, k ∈ modifiers → Skipped k u → u ≠ [] →
      ∃ w t, u ++ v = w ++ t ∧ isModifier w = true ∧ startsWord t = false := by
    rintro k u v hk (rfl | ⟨w, s, rfl, hw, hs, hne⟩) hu
    · exact absurd rfl hu
    · exact ⟨w, s ++ v, by simp, isModifier_of_sameWord hk hw, startsWord_blanks_append hs hne v⟩
  rw [h.eq]
  by_cases hg : g = []
  · by_cases hc : c = []
    · refine ⟨d, rest, by simp [hg, hc], isModifier_of_sameWord ?_ h.sameWord, h.stop⟩
      decide
    · obtain ⟨w, t, heq, hw, ht⟩ := @hskip _ _ (d ++ rest) (by decide) h.const hc
      exact ⟨w, t, by rw [hg, nil_append, heq], hw, ht⟩
  · obtain ⟨w, t, heq, hw, ht⟩ := @hskip _ _ (c ++ (d ++ rest)) (by decide) h.global hg
    exact ⟨w, t, by rw [heq], hw, ht⟩

/-! ## Headers -/

/-- A header of a data list up to its name, and what follows. -/
structure HeaderLine (code lead w s name rest : Text) : Prop where
  eq : code = lead ++ (w ++ (s ++ (name ++ rest)))
  isBlanks_lead : IsBlanks lead
  sameWord : sameWord "DEFDAT".toList w = true
  isBlanks : IsBlanks s
  ne_nil : s ≠ []
  isRun : IsRun (fun c => anyCaseInitial c || c == '$') isNamePart name

lemma exists_headerLine {m : Match} (h : dataListHeader.find? code = some m) :
    ∃ lead w s name rest, HeaderLine code lead w s name rest ∧
      m.group? 1 = some ⟨byteLength (lead ++ (w ++ s)), name⟩ := by
  obtain ⟨u, v, hcode, hfits⟩ := exists_fits_of_find? rfl h
  obtain ⟨_, tail, _, _, rfl, hgroups, hfits, hoption⟩ := hfits.exists_of_append
  obtain ⟨_, name, _, _, rfl, rfl, hfits, hname⟩ := hfits.exists_of_append
  obtain ⟨_, s, _, _, rfl, rfl, hfits, hgap⟩ := hfits.exists_of_append
  obtain ⟨lead, w, _, _, rfl, rfl, hlead, hword⟩ := hfits.exists_of_append
  obtain ⟨hs, hne⟩ := hgap.forall_of_gap
  have hnone := hoption.lookup_eq_none (i := 1) rfl
  cases hname with
  | group _ hname =>
    refine ⟨lead, w, s, name, tail ++ v, ⟨by simpa using hcode, (blank_of_fits_indent hlead).2.1,
      hword.sameWord_of_word.1, hs, hne, hname.isRun⟩, ?_⟩
    simp [Match.group?, hgroups, lookup_append, hnone, Cursor.skip, between]

namespace HeaderLine

variable {code lead w s name rest : Text} (h : HeaderLine code lead w s name rest)
include h

/-- A line that declares something is no header. -/
lemma declares_eq_false : declKeyword.holds code = false := by
  rw [← Bool.not_eq_true]
  intro hdecl
  obtain ⟨lead', g, c, d, more, hline⟩ := holds_declKeyword_iff.mp hdecl
  obtain ⟨w', t, heq, hmodifier, ht⟩ := hline.exists_modifier
  have hw : IsWord w := isWord_of_sameName (by decide) h.sameWord
  have hw' := isWord_of_isModifier hmodifier
  obtain ⟨-, heq⟩ := h.isBlanks_lead.append_inj hline.isBlanks_lead (hw.startsWord_append _)
    (hw'.startsWord_append t) (h.eq.symm.trans heq)
  obtain ⟨rfl, -⟩ := hw.append_inj hw' (startsWord_blanks_append h.isBlanks h.ne_nil _) ht heq
  rw [isModifier_eq_of_sameWord h.sameWord] at hmodifier
  exact absurd hmodifier (by decide)

/-- Up to its name it is code without strings. -/
lemma isCode (hcode : NoBreak code) :
    IsCode (lead ++ (w ++ (s ++ name))) ∧ '"' ∉ lead ++ (w ++ (s ++ name)) := by
  have hword : IsWord w := isWord_of_sameName (by decide) h.sameWord
  have hname : ∀ c ∈ name, isNamePart c = true := by
    obtain ⟨c, more, hcons, hc, hmore⟩ := h.isRun
    rw [hcons]
    refine forall_mem_cons.mpr ⟨?_, hmore⟩
    rcases Bool.or_eq_true_iff.mp hc with hc | hc
    · exact isNamePart_of_isWordChar (isWordChar_of_anyCaseInitial hc)
    · simp [isNamePart, hc]
  have hchars : ∀ c ∈ lead ++ (w ++ (s ++ name)), isBlank c = true ∨ isNamePart c = true := by
    intro c hc
    simp only [mem_append] at hc
    rcases hc with hc | hc | hc | hc
    · exact .inl (h.isBlanks_lead c hc)
    · exact .inr (isNamePart_of_isWordChar (hword.chars c hc))
    · exact .inl (h.isBlanks c hc)
    · exact .inr (hname c hc)
  have hquote : '"' ∉ lead ++ (w ++ (s ++ name)) := fun hmem => absurd (hchars _ hmem) (by decide)
  refine ⟨isCode_of_forall fun c hc => ⟨?_, ?_, hcode c ?_⟩, hquote⟩
  · rintro rfl
    exact hquote hc
  · rintro rfl
    exact absurd (hchars _ hc) (by decide)
  · rw [h.eq]
    simp only [mem_append] at hc ⊢
    tauto

lemma holds (rest' : Text) :
    dataListHeader.holds (lead ++ (w ++ (s ++ (name ++ rest')))) = true := by
  have hname : ∀ here v, Fits systemName here name v [] := by
    intro here v
    obtain ⟨c, more, hcons, hc, hmore⟩ := h.isRun
    rw [hcons]
    exact .seq (u := [c]) (.one _ hc _) (.many _ hmore v)
  have hfits : Fits dataListHeader.pattern (between [] (lead ++ (w ++ (s ++ (name ++ rest')))))
      (lead ++ w ++ s ++ name ++ []) rest' _ :=
    .seq (.seq (.seq (.seq (fits_indent h.isBlanks_lead _ _) (fits_word h.sameWord _ _))
      (fits_gap h.isBlanks h.ne_nil _ _)) (.group 1 (hname _ _))) (.altRight (.empty _ _))
  exact isIn_of_fits hfits (by simp)

/-- With `PUBLIC` behind the name the list is public. -/
lemma exists_public (rest' : Text) :
    ∃ m, dataListHeader.find? (lead ++ (w ++ (s ++ (name ++ (" PUBLIC".toList ++ rest'))))) =
      some m ∧ m.has 2 = true := by
  have hword : IsWord w := isWord_of_sameName (by decide) h.sameWord
  have hinitial : ∀ v, (name ++ v).head?.any isBlank = false := by
    refine h.isRun.head?_any fun c hc => ?_
    rcases Bool.or_eq_true_iff.mp hc with hc | hc
    · exact isBlank_of_isWordChar (isWordChar_of_anyCaseInitial hc)
    · obtain rfl := beq_iff_eq.mp hc
      decide
  have hblank : ([' '] ++ "PUBLIC".toList ++ rest').head?.any isNamePart = false :=
    isNamePart_of_isBlank (c := ' ') (by decide)
  have hpublic : ("PUBLIC".toList ++ rest').head?.any isBlank = false :=
    isBlank_of_isWordChar (c := 'P') (by decide)
  have hshape : Prefers dataListHeader.pattern [] _ rest' _ :=
    ((((Prefers.indent h.isBlanks_lead (hword.any_head?_append _)).seq (.word h.sameWord _ _)).seq
      (.gap h.isBlanks h.ne_nil (hinitial _) _)).seq
        (.group 1 (.run h.isRun hblank _))).seq
      (.altLeft (.seq (u := [' ']) (.gap isBlanks_space (by simp) hpublic _)
        (.group 2 (.word (sameWord_refl "PUBLIC".toList) _ _))))
  have hfind := find?_of_prefers hshape
  have htext : lead ++ (w ++ (s ++ (name ++ (" PUBLIC".toList ++ rest')))) =
      lead ++ w ++ s ++ name ++ ([' '] ++ "PUBLIC".toList) ++ rest' := by simp
  rw [htext]
  exact ⟨_, hfind, rfl⟩

end HeaderLine

end LineRule

end KrlWorkbench
