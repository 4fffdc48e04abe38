import KrlWorkbench.Proofs.Pattern.Initials
import KrlWorkbench.Proofs.Renaming.Rules

/-!
# The way to fit that is preferred

Of the ways in which a pattern fits at a place, `run` takes the first that lets the rest fit.  A
pattern `Prefers` a way if `run` takes it whenever what follows accepts its end; then the ways that
come later need not be looked at.  Each constructor of patterns has a rule for this: a repetition
prefers to be long (`Prefers.many`), an alternative its left side, and its right side where the left
one refuses the text (`Prefers.altRight`).  With them a match is read off the text that it fits
(`find?_of_prefers`), groups included.
-/

namespace KrlWorkbench

open List Text

variable {u : Text} {first part : Char → Bool} {here : Cursor} {k : String}

/-! ## Runs of characters -/

/-- A first character of one class and any number of another. -/
def Text.IsRun (first part : Char → Bool) (a : Text) : Prop :=
  ∃ c rest, a = c :: rest ∧ first c = true ∧ ∀ d ∈ rest, part d = true

lemma Text.IsRun.head?_any {f : Char → Bool} (hu : IsRun first part u)
    (hf : ∀ c, first c = true → f c = false) (v : Text) : (u ++ v).head?.any f = false := by
  obtain ⟨c, rest, rfl, hc, -⟩ := hu
  exact hf c hc

lemma Pattern.Fits.isRun {v : Text} {found : Groups}
    (h : Fits (.one first ++ .many part) here u v found) : IsRun first part u := by
  obtain ⟨lead, rest, _, _, rfl, -, hlead, hrest⟩ := h.exists_of_append
  cases hlead with
  | one _ hc => exact ⟨_, rest, rfl, hc, hrest.forall_of_many.1⟩

namespace Pattern

lemma Fits.lookup_eq_none {p : Pattern} {v : Text} {found : Groups} (h : Fits p here u v found)
    {i : Nat} (hi : p.bodies i = []) : found.lookup i = none := by
  by_contra hsome
  obtain ⟨c, hc⟩ := Option.ne_none_iff_exists'.mp hsome
  obtain ⟨_, _, hfound, -⟩ := lookup_eq_some_iff.mp hc
  obtain ⟨body, hbody, -⟩ := h.exists_body (i := i) (c := c) (by simp [hfound])
  rw [hi] at hbody
  cases hbody

/-- The pattern cannot fit between `x` and `text`. -/
def Rejects (p : Pattern) (x text : Text) : Prop :=
  ∀ (β : Type) (groups : Groups) (next : Cursor → Groups → Option β),
    p.run (between x text) groups next = none

/-- Between `x` and `v` the pattern fits `u` and finds the groups `found`, and if what follows
accepts the place behind `u`, no other way is taken. -/
def Prefers (p : Pattern) (x u v : Text) (found : Groups) : Prop :=
  ∀ (β : Type) (groups : Groups) (next : Cursor → Groups → Option β) (result : β),
    next (between (x ++ u) v) (found ++ groups) = some result →
      p.run (between x (u ++ v)) groups next = some result

variable {p a b : Pattern} {x u u' v w s : Text} {found found' : Groups}

/-! ## What is refused -/

lemma Fits.exists_keyword {ks : List String} (h : Fits (anyKeyword ks) here u v found) :
    ∃ k ∈ ks, sameWord k.toList u = true := by
  induction ks using anyKeyword.induct with
  | case1 =>
    cases h with
    | one _ hc => cases hc
  | case2 k => exact ⟨k, mem_cons_self, h.sameWord_of_word.1⟩
  | case3 k ks hne ih =>
    rw [anyKeyword] at h
    · cases h with
      | altLeft h => exact ⟨k, mem_cons_self, h.sameWord_of_word.1⟩
      | altRight h =>
        obtain ⟨k', hk', hsame⟩ := ih h
        exact ⟨k', mem_cons_of_mem _ hk', hsame⟩
    · exact hne

/-- A pattern that fits nowhere at a place refuses what stands there. -/
lemma rejects_of_forall_not_fits {text : Text}
    (h : ∀ u v found, text = u ++ v → ¬Fits p (between x text) u v found) : p.Rejects x text := by
  intro β groups next
  by_contra hsome
  obtain ⟨result, hresult⟩ := Option.ne_none_iff_exists'.mp hsome
  obtain ⟨u, v, found, htext, hfits, -⟩ := exists_fits_of_run hresult
  exact h u v found htext hfits

/-- A keyword and a gap refuse a text that starts with another word, or with none. -/
lemma Rejects.lead (i : Nat) (hk : isIdentifier k.toList = true)
    (hs : sameWord k.toList (s.takeWhile isWordChar) = false) (x : Text) :
    (.group i (keyword k) ++ gap : Pattern).Rejects x s := by
  refine rejects_of_forall_not_fits fun u rest found heq hfits => ?_
  obtain ⟨w, t, _, _, rfl, -, hgroup, hgap⟩ := hfits.exists_of_append
  obtain ⟨hblanks, hne⟩ := hgap.forall_of_gap
  cases hgroup with
  | group _ hword =>
    have hsame := hword.sameWord_of_word.1
    rw [heq, append_assoc, (isWord_of_sameName hk hsame).takeWhile_append
      (startsWord_blanks_append hblanks hne rest), hsame] at hs
    cases hs

/-! ## What is preferred -/

namespace Prefers

lemma empty (x v : Text) : Prefers .empty x [] v [] := by
  intro β groups next result h
  rwa [append_nil] at h

lemma one {f : Char → Bool} {c : Char} (hc : f c = true) (x v : Text) :
    Prefers (.one f) x [c] v [] := by
  intro β groups next result h
  change (if f c then next ((between x (c :: v)).past c v) groups else none) = some result
  rw [if_pos hc, past_between]
  exact h

lemma many {f : Char → Bool} (hu : ∀ c ∈ u, f c = true) (hv : v.head?.any f = false) (x : Text) :
    Prefers (.many f) x u v [] := by
  intro β groups next result h
  have hstop : v.takeWhile f = [] ∧ v.dropWhile f = v := by
    cases v with
    | nil => exact ⟨rfl, rfl⟩
    | cons c v =>
      have hc : ¬f c = true := by simpa using hv
      exact ⟨takeWhile_cons_of_neg hc, dropWhile_cons_of_neg hc⟩
  refine LineRule.runMany_greedy rfl ?_
  rw [between_rest, takeWhile_append_of_pos hu, dropWhile_append_of_pos hu, hstop.1,
    hstop.2, append_nil, skip_between]
  exact h

lemma seq (ha : Prefers a x u (u' ++ v) found) (hb : Prefers b (x ++ u) u' v found') :
    Prefers (a ++ b) x (u ++ u') v (found' ++ found) := by
  intro β groups next result h
  rw [append_assoc u]
  change a.run _ _ (fun there found => b.run there found next) = some result
  refine ha _ _ _ _ (hb _ _ _ _ ?_)
  rwa [append_assoc, ← append_assoc found']

lemma seq_absent (ha : Prefers a x u v found) (hb : Prefers b (x ++ u) [] v []) :
    Prefers (a ++ b) x u v found := by
  have hseq := seq (u := u) (v := v) ha hb
  rwa [append_nil] at hseq

lemma altLeft (ha : Prefers a x u v found) : Prefers (.alt a b) x u v found := by
  intro β groups next result h
  rw [run, ha _ _ _ _ h]

lemma altRight (ha : a.Rejects x (u ++ v)) (hb : Prefers b x u v found) :
    Prefers (.alt a b) x u v found := by
  intro β groups next result h
  rw [run, ha, hb _ _ _ _ h]

lemma group (i : Nat) (ha : Prefers a x u v found) :
    Prefers (.group i a) x u v ((i, ⟨byteLength x, u⟩) :: found) := by
  intro β groups next result h
  refine ha _ _ _ _ ?_
  rwa [upTo_between]

lemma textStart (v : Text) : Prefers .textStart [] [] v [] := by
  intro β groups next result h
  exact h

lemma textEnd (x : Text) : Prefers .textEnd x [] [] [] := by
  intro β groups next result h
  rwa [append_nil] at h

lemma word {k : Text} (h : sameWord k u = true) (x v : Text) : Prefers (word k) x u v [] := by
  intro β groups next result hnext
  rwa [run_word rfl h, skip_between]

/-! ## Blanks and keywords -/

lemma blanks (hu : IsBlanks u) (hv : v.head?.any isBlank = false) (x : Text) :
    Prefers blanks x u v [] :=
  many hu hv x

lemma gap (hu : IsBlanks u) (hne : u ≠ []) (hv : v.head?.any isBlank = false) (x : Text) :
    Prefers gap x u v [] := by
  obtain ⟨c, u, rfl⟩ := exists_cons_of_ne_nil hne
  exact seq (u := [c]) (one (hu c mem_cons_self) x _)
    (many (forall_mem_cons.mp hu).2 hv _)

lemma indent (hu : IsBlanks u) (hv : v.head?.any isBlank = false) :
    Prefers LineRule.indent [] u v [] :=
  seq (textStart _) (blanks hu hv [])

/-- A keyword that may be left out stands there. -/
lemma maybe_present (i : Nat) (hk : sameWord k.toList u = true) (hs : IsBlanks s) (hne : s ≠ [])
    (hv : v.head?.any isBlank = false) (x : Text) :
    Prefers (LineRule.maybe i k) x (u ++ s) v [(i, ⟨byteLength x, u⟩)] :=
  altLeft (seq (group i (word hk x _)) (gap hs hne hv _))

/-- Another word stands where a keyword may be left out, or none. -/
lemma maybe_absent (i : Nat) (hk : isIdentifier k.toList = true)
    (hv : sameWord k.toList (v.takeWhile isWordChar) = false) (x : Text) :
    Prefers (LineRule.maybe i k) x [] v [] :=
  altRight (.lead i hk hv x) (empty x v)

lemma run (hu : IsRun first part u) (hv : v.head?.any part = false) (x : Text) :
    Prefers (.one first ++ .many part) x u v [] := by
  obtain ⟨c, rest, rfl, hc, hrest⟩ := hu
  exact seq (u := [c]) (one hc x _) (many hrest hv _)

end Prefers

lemma matchAt_of_prefers (h : Prefers p x u v found) :
    p.matchAt (between x (u ++ v)) = some (⟨⟨byteLength x, u⟩, found⟩, between (x ++ u) v) := by
  refine h _ _ _ _ ?_
  rw [append_nil, upTo_between]

lemma find?_of_prefers (h : Prefers p [] u v found) : p.find? (u ++ v) = some ⟨⟨0, u⟩, found⟩ := by
  have hmatch : p.matchAt (between [] (u ++ v)) = some (⟨⟨0, u⟩, found⟩, between u v) :=
    matchAt_of_prefers h
  change p.findFrom (u ++ v) (between [] (u ++ v)) = _
  cases htext : u ++ v with
  | nil =>
    rw [htext] at hmatch
    rw [findFrom, hmatch]
    rfl
  | cons c rest =>
    rw [htext] at hmatch
    rw [findFrom, hmatch]

end Pattern
end KrlWorkbench
