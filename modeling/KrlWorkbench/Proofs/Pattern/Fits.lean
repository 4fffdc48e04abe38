import KrlWorkbench.Proofs.Text.Pieces
import KrlWorkbench.Proofs.Text.Words

/-!
# What a pattern may fit

`Pattern.run` tries the ways in which a pattern fits in an order of preference.  `Fits` is the
relation without the order: one rule per kind of pattern, and the groups that a way adds.  Every
result of a run, a search or a list of occurrences comes from a way that fits
(`exists_fits_of_run`, `matches_of_find?`, `matches_of_mem_occurrences`), so what holds of all ways
holds of every match.  Conversely a run that has a way to fit has a result (`isSome_run_of_fits`).

Two such facts are used throughout: a match and its groups lie inside the text
(`Match.Inside`), and a match is at least as long as its pattern asks for (`minLength`).
-/

namespace KrlWorkbench

open List Cursor Text

variable {v u text a b : Text} {i : Nat} {c : Capture} {here : Cursor} {found : Groups}
  {p : Pattern}

namespace Cursor

/-- The place behind a piece `u` of what follows, with `v` behind it. -/
def skip (here : Cursor) (u v : Text) : Cursor :=
  ⟨u.reverse ++ here.before, v, here.offset + byteLength u⟩

lemma skip_nil_eq (h : here.rest = v) : here.skip [] v = here := by
  subst h
  rfl

@[simp] lemma skip_rest (here : Cursor) (u v : Text) : (here.skip u v).rest = v := rfl

@[simp] lemma skip_skip (here : Cursor) (u u' v v' : Text) :
    (here.skip u v).skip u' v' = here.skip (u ++ u') v' := by
  simp [skip, Nat.add_assoc]

lemma past_eq_skip (here : Cursor) (c : Char) (rest : Text) :
    here.past c rest = here.skip [c] rest := by
  simp [past, skip]

lemma upTo_skip (h : here.rest = u ++ v) : here.upTo (here.skip u v) = ⟨here.offset, u⟩ := by
  simp [upTo, h]

end Cursor

namespace Pattern

/-! ## Ways to fit -/

/-- The pattern fits the text `u` behind a place, where `v` follows, and adds the groups `found`,
latest first. -/
inductive Fits : Pattern → Cursor → Text → Text → Groups → Prop
  | empty (here : Cursor) (v : Text) : Fits .empty here [] v []
  | one {p : Char → Bool} (here : Cursor) {c : Char} (hc : p c = true) (v : Text) :
      Fits (.one p) here [c] v []
  | many {p : Char → Bool} (here : Cursor) {u : Text} (hu : ∀ c ∈ u, p c = true) (v : Text) :
      Fits (.many p) here u v []
  | seq {a b : Pattern} {here : Cursor} {u u' v : Text} {found found' : Groups}
      (ha : Fits a here u (u' ++ v) found) (hb : Fits b (here.skip u (u' ++ v)) u' v found') :
      Fits (.seq a b) here (u ++ u') v (found' ++ found)
  | altLeft {a b : Pattern} {here : Cursor} {u v : Text} {found : Groups}
      (ha : Fits a here u v found) : Fits (.alt a b) here u v found
  | altRight {a b : Pattern} {here : Cursor} {u v : Text} {found : Groups}
      (hb : Fits b here u v found) : Fits (.alt a b) here u v found
  | group {a : Pattern} {here : Cursor} {u v : Text} {found : Groups} (i : Nat)
      (ha : Fits a here u v found) :
      Fits (.group i a) here u v ((i, ⟨here.offset, u⟩) :: found)
  | textStart {here : Cursor} (h : here.before = []) (v : Text) : Fits .textStart here [] v []
  | textEnd (here : Cursor) : Fits .textEnd here [] [] []
  | wordBoundary {here : Cursor} {v : Text}
      (h : isWordBoundary here.before.head? v.head? = true) : Fits .wordBoundary here [] v []

variable {β : Type}

lemma exists_skip_of_runMany {p : Char → Bool} {next : Cursor → Option β} {result : β}
    (hrest : here.rest = text) (h : runMany p next text here = some result) :
    ∃ u v, text = u ++ v ∧ (∀ c ∈ u, p c = true) ∧ next (here.skip u v) = some result := by
  induction text generalizing here with
  | nil => exact ⟨[], [], rfl, by simp, by rwa [skip_nil_eq hrest]⟩
  | cons c rest ih =>
    have hstay : next here = some result →
        ∃ u v, c :: rest = u ++ v ∧ (∀ c ∈ u, p c = true) ∧
          next (here.skip u v) = some result := by
      intro hnext
      exact ⟨[], c :: rest, rfl, by simp, by rwa [skip_nil_eq hrest]⟩
    rw [runMany] at h
    split at h
    case isFalse => exact hstay h
    case isTrue hc =>
      split at h
      case h_1 result' hfound =>
        obtain rfl : result' = result := by simpa using h
        obtain ⟨u, v, rfl, hu, hnext⟩ := ih rfl hfound
        rw [past_eq_skip, skip_skip] at hnext
        exact ⟨c :: u, v, rfl, forall_mem_cons.mpr ⟨hc, hu⟩, hnext⟩
      case h_2 => exact hstay h

/-- **Soundness of a run.**  A result is what `next` makes of a place behind a way to fit. -/
lemma exists_fits_of_run {groups : Groups} {next : Cursor → Groups → Option β} {result : β}
    (h : p.run here groups next = some result) :
    ∃ u v found, here.rest = u ++ v ∧ Fits p here u v found ∧
      next (here.skip u v) (found ++ groups) = some result := by
  -- On the pattern, for all continuations: the run passes what follows inward.
  induction p generalizing here groups next with
  | empty => exact ⟨[], here.rest, [], rfl, .empty _ _, h⟩
  | one p =>
    rw [run] at h
    split at h
    case h_1 c rest hrest =>
      obtain ⟨hc, h⟩ := Option.ite_none_right_eq_some.mp h
      exact ⟨[c], rest, [], hrest, .one _ hc _, h⟩
    case h_2 => simp at h
  | many p =>
    obtain ⟨u, v, hrest, hu, hnext⟩ := exists_skip_of_runMany rfl h
    exact ⟨u, v, [], hrest, .many _ hu _, hnext⟩
  | seq a b iha ihb =>
    obtain ⟨u, v, found, hrest, ha, h⟩ := iha h
    obtain ⟨u', v', found', rfl, hb, h⟩ := ihb h
    refine ⟨u ++ u', v', found' ++ found, by simpa using hrest, .seq ha hb, ?_⟩
    simpa using h
  | alt a b iha ihb =>
    rw [run] at h
    split at h
    case h_1 result' hresult =>
      rw [h] at hresult
      obtain ⟨u, v, found, hrest, ha, h⟩ := iha hresult
      exact ⟨u, v, found, hrest, .altLeft ha, h⟩
    case h_2 =>
      obtain ⟨u, v, found, hrest, hb, h⟩ := ihb h
      exact ⟨u, v, found, hrest, .altRight hb, h⟩
  | group i a iha =>
    obtain ⟨u, v, found, hrest, ha, h⟩ := iha h
    rw [upTo_skip hrest] at h
    exact ⟨u, v, _, hrest, .group i ha, h⟩
  | textStart =>
    obtain ⟨hbefore, h⟩ := Option.ite_none_right_eq_some.mp h
    exact ⟨[], here.rest, [], rfl, .textStart (by simpa using hbefore) _, h⟩
  | textEnd =>
    obtain ⟨hrest, h⟩ := Option.ite_none_right_eq_some.mp h
    have hnil : here.rest = [] := by simpa using hrest
    exact ⟨[], [], [], hnil, .textEnd _, by rwa [skip_nil_eq hnil]⟩
  | wordBoundary =>
    obtain ⟨hboundary, h⟩ := Option.ite_none_right_eq_some.mp h
    exact ⟨[], here.rest, [], rfl, .wordBoundary hboundary, h⟩

lemma isSome_runMany {p : Char → Bool} {next : Cursor → Option β} (hrest : here.rest = u ++ v)
    (hu : ∀ c ∈ u, p c = true) (h : (next (here.skip u v)).isSome = true) :
    (runMany p next (u ++ v) here).isSome = true := by
  induction u generalizing here with
  | nil =>
    rw [show here.skip [] v = here from skip_nil_eq hrest] at h
    cases v with
    | nil => exact h
    | cons c v =>
      rw [nil_append, runMany]
      split
      case isTrue =>
        split
        case h_1 => rfl
        case h_2 => exact h
      case isFalse => exact h
  | cons c u ih =>
    have hnext : (next ((here.past c (u ++ v)).skip u v)).isSome = true := by
      rw [past_eq_skip, skip_skip]
      exact h
    obtain ⟨result, hresult⟩ := Option.isSome_iff_exists.mp
      (ih rfl (forall_mem_cons.mp hu).2 hnext)
    rw [cons_append, runMany, if_pos (hu c mem_cons_self), hresult]
    rfl

/-- **Completeness of a run.**  If the pattern fits in some way behind which `next` accepts, the run
has a result, though perhaps from another way. -/
lemma isSome_run_of_fits (hfits : Fits p here u v found) (hrest : here.rest = u ++ v)
    {groups : Groups} {next : Cursor → Groups → Option β}
    (h : (next (here.skip u v) (found ++ groups)).isSome = true) :
    (p.run here groups next).isSome = true := by
  induction hfits generalizing groups next with
  | empty here v =>
    rwa [show here.skip [] v = here from skip_nil_eq hrest] at h
  | @one p here c hc v =>
    rw [run, hrest]
    simp only [cons_append, nil_append, hc, if_true]
    exact h
  | many here hu v =>
    rw [run, hrest]
    exact isSome_runMany hrest hu h
  | @seq a b here u u' v found found' _ _ iha ihb =>
    rw [append_assoc] at hrest
    refine iha hrest ?_
    refine ihb (by simp) ?_
    simpa using h
  | @altLeft a b here u v found _ ih =>
    obtain ⟨result, hresult⟩ := Option.isSome_iff_exists.mp (ih hrest h)
    rw [run, hresult]
    rfl
  -- The left branch may be taken all the same; then its result will do.
  | @altRight a b here u v found _ ih =>
    rw [run]
    split
    case h_1 => rfl
    case h_2 => exact ih hrest h
  | @group a here u v found i _ ih =>
    refine ih hrest ?_
    rw [upTo_skip hrest]
    exact h
  | @textStart here hbefore v =>
    rw [show here.skip [] v = here from skip_nil_eq hrest] at h
    simpa [run, hbefore] using h
  | textEnd here =>
    rw [show here.skip [] [] = here from skip_nil_eq hrest] at h
    have hnil : here.rest = [] := hrest
    simpa [run, hnil] using h
  | @wordBoundary here v hboundary =>
    rw [show here.skip [] v = here from skip_nil_eq hrest] at h
    have hv : here.rest = v := hrest
    rw [run, hv, if_pos hboundary]
    exact h

/-! ## Facts about all ways -/

/-- The fewest characters that a pattern fits. -/
def minLength : Pattern → Nat
  | .one _ => 1
  | .seq a b => a.minLength + b.minLength
  | .alt a b => min a.minLength b.minLength
  | .group _ a => a.minLength
  | _ => 0

lemma Fits.minLength_le (h : Fits p here u v found) : p.minLength ≤ u.length := by
  induction h with
  | one => simp [minLength]
  | seq _ _ iha ihb =>
    simp only [minLength, length_append]
    omega
  | altLeft _ ih | altRight _ ih =>
    simp only [minLength]
    omega
  | group _ _ ih => exact ih
  | _ => simp [minLength]

/-- A group stands inside the piece that the pattern fits. -/
lemma Fits.exists_append_of_mem (h : Fits p here u v found) {entry : Nat × Capture}
    (hentry : entry ∈ found) :
    ∃ a b, u = a ++ (entry.2.text ++ b) ∧ entry.2.start = here.offset + byteLength a := by
  induction h with
  | @seq a b here u u' v found found' _ _ iha ihb =>
    rcases mem_append.mp hentry with hentry | hentry
    · obtain ⟨c, d, hu, hstart⟩ := ihb hentry
      refine ⟨u ++ c, d, by simp [hu], ?_⟩
      rw [hstart, skip, byteLength_append, Nat.add_assoc]
    · obtain ⟨c, d, hu, hstart⟩ := iha hentry
      exact ⟨c, d ++ u', by simp [hu], hstart⟩
  | altLeft _ ih | altRight _ ih => exact ih hentry
  | @group a here u v found i _ ih =>
    rcases mem_cons.mp hentry with rfl | hentry
    · exact ⟨[], [], by simp, by simp⟩
    · exact ih hentry
  | _ => simp at hentry

/-- The patterns of a group. -/
def bodies (i : Nat) : Pattern → List Pattern
  | .seq a b => a.bodies i ++ b.bodies i
  | .alt a b => a.bodies i ++ b.bodies i
  | .group j a => (if j = i then [a] else []) ++ a.bodies i
  | _ => []

/-- What a group holds fits one of its patterns. -/
lemma Fits.exists_body (h : Fits p here u v found) (hc : (i, c) ∈ found) :
    ∃ body ∈ p.bodies i, ∃ here v f, Fits body here c.text v f := by
  induction h with
  | seq _ _ iha ihb =>
    rcases mem_append.mp hc with hc | hc
    · exact (ihb hc).imp fun _ => And.imp_left (mem_append_right _)
    · exact (iha hc).imp fun _ => And.imp_left (mem_append_left _)
  | altLeft _ ih => exact (ih hc).imp fun _ => And.imp_left (mem_append_left _)
  | altRight _ ih => exact (ih hc).imp fun _ => And.imp_left (mem_append_right _)
  | @group a here u v found j ha ih =>
    rcases mem_cons.mp hc with hc | hc
    · obtain ⟨rfl, rfl⟩ := Prod.mk.inj hc
      exact ⟨a, by simp [bodies], here, v, found, ha⟩
    · exact (ih hc).imp fun _ => And.imp_left (mem_append_right _)
  | _ => simp at hc

/-- Whether every way to fit adds the group. -/
def binds (i : Nat) : Pattern → Bool
  | .seq a b => a.binds i || b.binds i
  | .alt a b => a.binds i && b.binds i
  | .group j a => i == j || a.binds i
  | _ => false

lemma Fits.isSome_lookup (h : Fits p here u v found) (hi : p.binds i = true) :
    (found.lookup i).isSome = true := by
  induction h with
  | seq _ _ iha ihb =>
    rw [lookup_append, Option.isSome_or, Bool.or_eq_true]
    rcases Bool.or_eq_true_iff.mp hi with hi | hi
    · exact .inr (iha hi)
    · exact .inl (ihb hi)
  | altLeft _ ih => exact ih (Bool.and_eq_true_iff.mp hi).1
  | altRight _ ih => exact ih (Bool.and_eq_true_iff.mp hi).2
  | group j _ ih =>
    rw [lookup_cons]
    split
    · rfl
    · rename_i hij
      refine ih ?_
      rw [binds, hij, Bool.false_or] at hi
      exact hi
  | _ => cases hi

/-- Whether the pattern looks at what follows the piece that it fits. -/
def looksAhead : Pattern → Bool
  | .seq a b => a.looksAhead || b.looksAhead
  | .alt a b => a.looksAhead || b.looksAhead
  | .group _ a => a.looksAhead
  | .textEnd => true
  | .wordBoundary => true
  | _ => false

/-- What follows a piece may be changed, unless the pattern looks at it. -/
lemma Fits.elsewhere (h : Fits p here u v found) (hp : p.looksAhead = false) (there : Cursor)
    (hbefore : there.before = here.before) (hoffset : there.offset = here.offset) (v' : Text) :
    Fits p there u v' found := by
  induction h generalizing there v' with
  | empty => exact .empty _ _
  | one _ hc => exact .one _ hc _
  | many _ hu => exact .many _ hu _
  | @seq a b here u u' v found found' _ _ iha ihb =>
    rw [looksAhead, Bool.or_eq_false_iff] at hp
    refine .seq (iha hp.1 _ hbefore hoffset _) (ihb hp.2 _ ?_ ?_ _)
    · simp [skip, hbefore]
    · simp [skip, hoffset]
  | altLeft _ ih =>
    rw [looksAhead, Bool.or_eq_false_iff] at hp
    exact .altLeft (ih hp.1 _ hbefore hoffset _)
  | altRight _ ih =>
    rw [looksAhead, Bool.or_eq_false_iff] at hp
    exact .altRight (ih hp.2 _ hbefore hoffset _)
  | group i _ ih =>
    rw [← hoffset]
    exact .group i (ih hp _ hbefore hoffset _)
  | textStart h => exact .textStart (hbefore.trans h) _
  | textEnd | wordBoundary => simp [looksAhead] at hp

/-! ## Taking a way apart -/

lemma Fits.exists_of_append {a b : Pattern} {w : Text} (h : Fits (a ++ b) here w v found) :
    ∃ u u' f f', w = u ++ u' ∧ found = f' ++ f ∧ Fits a here u (u' ++ v) f ∧
      Fits b (here.skip u (u' ++ v)) u' v f' := by
  change Fits (.seq a b) here w v found at h
  cases h with
  | seq ha hb => exact ⟨_, _, _, _, rfl, rfl, ha, hb⟩

lemma Fits.forall_of_many {p : Char → Bool} (h : Fits (.many p) here u v found) :
    (∀ c ∈ u, p c = true) ∧ found = [] := by
  cases h with
  | many _ hu _ => exact ⟨hu, rfl⟩

lemma Fits.forall_of_gap (h : Fits gap here u v found) : (∀ c ∈ u, isBlank c = true) ∧ u ≠ [] := by
  obtain ⟨one, more, _, _, rfl, -, hone, hmore⟩ := h.exists_of_append
  cases hone with
  | @one _ _ c hc _ =>
    exact ⟨forall_mem_cons.mpr ⟨hc, hmore.forall_of_many.1⟩, by simp⟩

/-- A word fits what equals it up to case. -/
lemma Fits.sameWord_of_word {k : Text} (h : Fits (word k) here u v found) :
    sameWord k u = true ∧ found = [] := by
  induction k generalizing here u found with
  | nil =>
    cases h with
    | empty => exact ⟨rfl, rfl⟩
  | cons d k ih =>
    obtain ⟨u, u', f, f', rfl, rfl, hd, hk⟩ := Fits.exists_of_append h
    cases hd with
    | one _ hc _ =>
      obtain ⟨hu', rfl⟩ := ih hk
      exact ⟨sameWord_cons_cons.mpr ⟨hc, hu'⟩, rfl⟩

/-- A word is read in one way only. -/
lemma run_word {k : Text} (hrest : here.rest = u ++ v) (hk : sameWord k u = true) (groups : Groups)
    (next : Cursor → Groups → Option β) :
    (word k).run here groups next = next (here.skip u v) groups := by
  induction k generalizing here u with
  | nil =>
    obtain rfl := sameWord_nil_left.mp hk
    rw [skip_nil_eq (by simpa using hrest)]
    rfl
  | cons d k ih =>
    cases u with
    | nil =>
      have hlen := length_eq_of_sameWord hk
      simp at hlen
    | cons c u =>
      obtain ⟨hc, hu⟩ := sameWord_cons_cons.mp hk
      change (Pattern.seq (.one (sameFold d)) (word k)).run here groups next = _
      rw [run, run, hrest, cons_append]
      simp only [hc, if_true]
      have hpast : (here.past c (u ++ v)).rest = u ++ v := rfl
      rw [ih hpast hu, past_eq_skip, skip_skip]
      rfl

end Pattern

/-! ## Searches -/

/-- A piece stands in a text at its offset. -/
def Capture.Inside (c : Capture) (text : Text) : Prop :=
  ∃ a b, text = a ++ (c.text ++ b) ∧ c.start = byteLength a

lemma Capture.Inside.stop_le (h : c.Inside text) : c.stop ≤ byteLength text := by
  obtain ⟨a, b, rfl, hstart⟩ := h
  simp [Capture.stop, hstart]

/-- A match and its groups stand in a text. -/
structure Match.Inside (m : Match) (text : Text) : Prop where
  whole : m.whole.Inside text
  groups : ∀ entry ∈ m.groups, entry.2.Inside text

lemma Match.mem_groups_of_group? {m : Match} (hc : m.group? i = some c) : (i, c) ∈ m.groups := by
  obtain ⟨l₁, l₂, hsplit, -⟩ := lookup_eq_some_iff.mp hc
  rw [hsplit]
  simp

lemma Match.Inside.group? {m : Match} (h : m.Inside text) (hc : m.group? i = some c) :
    c.Inside text :=
  h.groups _ (Match.mem_groups_of_group? hc)

namespace Pattern

/-- The place in a text between its parts `a` and `b`. -/
def between (a b : Text) : Cursor :=
  ⟨a.reverse, b, byteLength a⟩

@[simp] lemma between_rest (a b : Text) : (between a b).rest = b := rfl

lemma past_between (a : Text) (c : Char) (b : Text) :
    (between a (c :: b)).past c b = between (a ++ [c]) b := by
  simp [between, past]

/-- The match `m` of a pattern in a text comes from a way to fit. -/
def Matches (p : Pattern) (text : Text) (m : Match) : Prop :=
  ∃ a u v, text = a ++ (u ++ v) ∧ m.whole = ⟨byteLength a, u⟩ ∧
    Fits p (between a (u ++ v)) u v m.groups

variable {p : Pattern} {text : Text} {m : Match}

lemma Matches.inside (h : p.Matches text m) : m.Inside text := by
  obtain ⟨a, u, v, rfl, hwhole, hfits⟩ := h
  refine ⟨⟨a, v, by rw [hwhole], by rw [hwhole]⟩, ?_⟩
  intro entry hentry
  obtain ⟨c, d, rfl, hstart⟩ := hfits.exists_append_of_mem hentry
  refine ⟨a ++ c, d ++ v, by simp, ?_⟩
  simpa [between] using hstart

lemma Matches.minLength_le (h : p.Matches text m) : p.minLength ≤ byteLength m.whole.text := by
  obtain ⟨a, u, v, -, hwhole, hfits⟩ := h
  rw [hwhole]
  exact Nat.le_trans hfits.minLength_le (length_le_byteLength u)

lemma matches_of_matchAt {there : Cursor} (h : p.matchAt (between a b) = some (m, there)) :
    p.Matches (a ++ b) m ∧ ∃ u v, b = u ++ v ∧ there = between (a ++ u) v := by
  obtain ⟨u, v, found, hb, hfits, hnext⟩ := exists_fits_of_run h
  obtain rfl : b = u ++ v := hb
  obtain ⟨rfl, rfl⟩ := hnext
  refine ⟨⟨a, u, v, rfl, upTo_skip rfl, ?_⟩, u, v, rfl, ?_⟩
  · simpa using hfits
  · simp [skip, between]

lemma exists_matchAt_of_findFrom {lead text : Text}
    (h : p.findFrom text (between lead text) = some m) :
    ∃ a b there, text = a ++ b ∧ p.matchAt (between (lead ++ a) b) = some (m, there) ∧
      ∀ x y, a = x ++ y → y ≠ [] → p.matchAt (between (lead ++ x) (y ++ b)) = none := by
  induction text generalizing lead with
  | nil =>
    obtain ⟨⟨m, there⟩, hmatch, rfl⟩ := Option.map_eq_some_iff.mp h
    exact ⟨[], [], there, rfl, by rwa [append_nil], by simp⟩
  | cons c rest ih =>
    rw [findFrom] at h
    split at h
    case h_1 m' there hmatch =>
      obtain rfl := Option.some.inj h
      exact ⟨[], c :: rest, there, rfl, by rwa [append_nil], by simp⟩
    case h_2 hnone =>
      rw [past_between] at h
      obtain ⟨a, b, there, rfl, hmatch, hleft⟩ := ih h
      refine ⟨c :: a, b, there, rfl, by simpa using hmatch, fun x y hxy hne => ?_⟩
      cases x with
      | nil =>
        rw [append_nil, ← nil_append y, ← hxy]
        exact hnone
      | cons d x =>
        obtain ⟨rfl, rfl⟩ := List.cons.inj hxy
        simpa using hleft x y rfl hne

/-- A match is found where none begins further left. -/
lemma exists_matchAt_of_find? (h : p.find? text = some m) :
    ∃ a b there, text = a ++ b ∧ p.matchAt (between a b) = some (m, there) ∧
      ∀ x y, a = x ++ y → y ≠ [] → p.matchAt (between x (y ++ b)) = none :=
  @exists_matchAt_of_findFrom p m [] text h

lemma matches_of_find? (h : p.find? text = some m) : p.Matches text m := by
  obtain ⟨a, b, there, rfl, hmatch, -⟩ := exists_matchAt_of_find? h
  exact (matches_of_matchAt hmatch).1

lemma matches_of_mem_occurrencesFrom {last : Option Nat}
    (h : m ∈ p.occurrencesFrom (between a b) last) : p.Matches (a ++ b) m := by
  induction hlen : b.length using Nat.strongRecOn generalizing a b last with
  | ind n ih =>
    -- The search goes on behind the next character or behind the match, in what is left.
    have honward : ∀ c rest, (between a b).rest = c :: rest →
        m ∈ p.occurrencesFrom ((between a b).past c rest) last → p.Matches (a ++ b) m := by
      intro c rest hrest hmem
      obtain rfl : b = c :: rest := hrest
      rw [past_between] at hmem
      simpa using ih rest.length (by simp [← hlen]) hmem rfl
    rw [occurrencesFrom] at h
    split at h
    case h_1 =>
      split at h
      case h_1 => simp at h
      case h_2 c rest hrest => exact honward c rest hrest h
    case h_2 m' there hmatch =>
      obtain ⟨hm', u, v, rfl, rfl⟩ := matches_of_matchAt hmatch
      split at h
      case isTrue hlt =>
        rcases mem_cons.mp h with rfl | h
        · exact hm'
        · simpa using ih v.length (by simpa [between, ← hlen] using hlt) h rfl
      case isFalse =>
        split at h
        case isTrue =>
          split at h
          case h_1 => simp at h
          case h_2 c rest hrest => exact honward c rest hrest h
        case isFalse =>
          rcases mem_cons.mp h with rfl | h
          · exact hm'
          · split at h
            case h_1 => simp at h
            case h_2 c rest hrest => exact honward c rest hrest h

lemma matches_of_mem_occurrences (h : m ∈ p.occurrences text) : p.Matches text m :=
  matches_of_mem_occurrencesFrom (a := []) h

end Pattern
end KrlWorkbench
