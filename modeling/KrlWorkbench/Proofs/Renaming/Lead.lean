import KrlWorkbench.Proofs.Pattern.Fits
import KrlWorkbench.Proofs.Renaming.Links

/-!
# What stands before a group

A name in a captured piece is a use only if no string is open where the piece begins and no owner
stands there.  Whether that can be is read off the pattern.  A `Doubt` says what may stand before a
place; `doubtAfter` carries a doubt through a pattern and `groupDoubt` collects the doubts at the
starts of a group.  Both look at a class of characters only at the quote, the dollar sign and the
point, so for a given pattern they compute.

`Fits.covers_doubtAfter` and `Fits.covers_groupDoubt` say that the doubts cover every way to fit,
and `exists_calm_lead` states the outcome for a match.
-/

namespace KrlWorkbench

open Code Text

/-- What may stand before a place: a string may be open there, an owner may stand there. -/
structure Doubt where
  inside : Bool
  owned : Bool
  deriving DecidableEq, Repr

namespace Doubt

/-- Nothing of either. -/
def no : Doubt := ⟨false, false⟩

/-- What may be by one or the other. -/
def join (d e : Doubt) : Doubt :=
  ⟨d.inside || e.inside, d.owned || e.owned⟩

/-- What is so may be so. -/
structure Covers (d : Doubt) (inside owned : Bool) : Prop where
  inside : inside = true → d.inside = true
  owned : owned = true → d.owned = true

lemma Covers.join_left {d : Doubt} {inside owned : Bool} (h : d.Covers inside owned) (e : Doubt) :
    (d.join e).Covers inside owned :=
  ⟨fun hi => by simp [join, h.inside hi], fun ho => by simp [join, h.owned ho]⟩

lemma Covers.join_right {d : Doubt} {inside owned : Bool} (h : d.Covers inside owned) (e : Doubt) :
    (e.join d).Covers inside owned :=
  ⟨fun hi => by simp [join, h.inside hi], fun ho => by simp [join, h.owned ho]⟩

end Doubt

namespace Pattern

/-- What may stand behind a pattern, from what may stand before it. -/
def doubtAfter : Pattern → Doubt → Doubt
  | .one f, d => ⟨d.inside || f '"', f '$' || f '.'⟩
  | .many f, d => ⟨d.inside || f '"', d.owned || (f '$' || f '.')⟩
  | .seq a b, d => b.doubtAfter (a.doubtAfter d)
  | .alt a b, d => (a.doubtAfter d).join (b.doubtAfter d)
  | .group _ a, d => a.doubtAfter d
  | _, d => d

/-- What may stand before a group of a pattern. -/
def groupDoubt (i : Nat) : Pattern → Doubt → Doubt
  | .seq a b, d => (a.groupDoubt i d).join (b.groupDoubt i (a.doubtAfter d))
  | .alt a b, d => (a.groupDoubt i d).join (b.groupDoubt i d)
  | .group j a, d => (if j = i then d else .no).join (a.groupDoubt i d)
  | _, _ => .no

variable {p : Pattern} {here : Cursor} {u v : Text} {found : Groups} {d : Doubt}
  {inside owned : Bool}

lemma Fits.covers_doubtAfter (h : Fits p here u v found) (hd : d.Covers inside owned) :
    (p.doubtAfter d).Covers (insideAfter inside u) (ownedAfter owned u) := by
  -- On the way to fit; only single characters and runs can open a string or own a word.
  induction h generalizing d inside owned with
  | @one f here c hc v =>
    constructor
    · intro hi
      rcases insideAfter_eq_true hi with hi | hi
      · simp [doubtAfter, hd.inside hi]
      · obtain rfl := List.mem_singleton.mp hi
        simp [doubtAfter, hc]
    · intro ho
      rcases ownedAfter_eq_true ho with ⟨hnil, -⟩ | ho | ho
      · simp at hnil
      · obtain rfl := List.mem_singleton.mp ho
        simp [doubtAfter, hc]
      · obtain rfl := List.mem_singleton.mp ho
        simp [doubtAfter, hc]
  | @many f here u hu v =>
    constructor
    · intro hi
      rcases insideAfter_eq_true hi with hi | hi
      · simp [doubtAfter, hd.inside hi]
      · simp [doubtAfter, hu _ hi]
    · intro ho
      rcases ownedAfter_eq_true ho with ⟨-, ho⟩ | ho | ho
      · simp [doubtAfter, hd.owned ho]
      · simp [doubtAfter, hu _ ho]
      · simp [doubtAfter, hu _ ho]
  | @seq a b here u u' v found found' _ _ iha ihb =>
    rw [insideAfter_append, ownedAfter_append]
    exact ihb (iha hd)
  | altLeft _ ih => exact (ih hd).join_left _
  | altRight _ ih => exact (ih hd).join_right _
  | group _ _ ih => exact ih hd
  | _ => exact hd

/-- A group begins where its doubts say. -/
lemma Fits.covers_groupDoubt (h : Fits p here u v found) (hd : d.Covers inside owned)
    {i : Nat} {c : Capture} (hc : (i, c) ∈ found) :
    ∃ a b, u = a ++ (c.text ++ b) ∧ c.start = here.offset + byteLength a ∧
      (p.groupDoubt i d).Covers (insideAfter inside a) (ownedAfter owned a) := by
  induction h generalizing d inside owned with
  | @seq p q here u u' v found found' hp _ ihp ihq =>
    rcases List.mem_append.mp hc with hc | hc
    · obtain ⟨a, b, hu', hstart, hcovers⟩ := ihq (hp.covers_doubtAfter hd) hc
      refine ⟨u ++ a, b, by simp [hu'], ?_, ?_⟩
      · rw [hstart, Cursor.skip, byteLength_append, Nat.add_assoc]
      · rw [insideAfter_append, ownedAfter_append]
        exact hcovers.join_right _
    · obtain ⟨a, b, hu, hstart, hcovers⟩ := ihp hd hc
      exact ⟨a, b ++ u', by simp [hu], hstart, hcovers.join_left _⟩
  | altLeft _ ih =>
    obtain ⟨a, b, hu, hstart, hcovers⟩ := ih hd hc
    exact ⟨a, b, hu, hstart, hcovers.join_left _⟩
  | altRight _ ih =>
    obtain ⟨a, b, hu, hstart, hcovers⟩ := ih hd hc
    exact ⟨a, b, hu, hstart, hcovers.join_right _⟩
  | @group p here u v found j _ ih =>
    rcases List.mem_cons.mp hc with hc | hc
    · obtain ⟨rfl, rfl⟩ := Prod.mk.inj hc
      refine ⟨[], [], by simp, by simp, ?_⟩
      rw [groupDoubt, if_pos rfl]
      exact hd.join_left _
    · obtain ⟨a, b, hu, hstart, hcovers⟩ := ih hd hc
      exact ⟨a, b, hu, hstart, hcovers.join_right _⟩
  | _ => simp at hc

/-! ## Patterns for the start of a line -/

/-- Whether the pattern asks for the start of the text. -/
def startsText : Pattern → Bool
  | .seq a _ => a.startsText
  | .textStart => true
  | _ => false

lemma Fits.before_eq_nil (h : Fits p here u v found) (hp : p.startsText = true) :
    here.before = [] := by
  induction h with
  | seq _ _ ih _ => exact ih hp
  | textStart h => exact h
  | _ => simp [startsText] at hp

lemma run_eq_none_of_startsText {β : Type} (hp : p.startsText = true) (hbefore : here.before ≠ [])
    (g : Groups) (k : Cursor → Groups → Option β) : p.run here g k = none := by
  by_contra hsome
  obtain ⟨result, hresult⟩ := Option.ne_none_iff_exists'.mp hsome
  obtain ⟨_, _, _, _, hfits, _⟩ := exists_fits_of_run hresult
  exact hbefore (hfits.before_eq_nil hp)

lemma find?_of_startsText (hp : p.startsText = true) (text : Text) :
    p.find? text = (p.matchAt (between [] text)).map (·.1) := by
  have hnone : ∀ (rest : Text) (here : Cursor), here.before ≠ [] → p.findFrom rest here = none := by
    intro rest
    induction rest with
    | nil =>
      intro here hbefore
      rw [findFrom, matchAt, run_eq_none_of_startsText hp hbefore]
      rfl
    | cons c rest ih =>
      intro here hbefore
      rw [findFrom, matchAt, run_eq_none_of_startsText hp hbefore]
      exact ih _ (by simp [Cursor.past])
  cases text with
  | nil => rfl
  | cons c rest =>
    change p.findFrom (c :: rest) (between [] (c :: rest)) = _
    rw [findFrom]
    cases p.matchAt (between [] (c :: rest)) with
    | some found => rfl
    | none => exact hnone rest _ (by simp [Cursor.past])

lemma exists_fits_of_find? (hp : p.startsText = true) {text : Text} {m : Match}
    (h : p.find? text = some m) :
    ∃ u v, text = u ++ v ∧ Fits p (between [] text) u v m.groups := by
  obtain ⟨a, u, v, htext, -, hfits⟩ := matches_of_find? h
  obtain rfl : a = [] := by simpa [between] using hfits.before_eq_nil hp
  obtain rfl : text = u ++ v := htext
  exact ⟨u, v, rfl, hfits⟩

/-- **What stands before a group.**  Where no doubt is left, a group of a match begins outside
strings and behind no owner. -/
lemma exists_calm_lead (hp : p.startsText = true) {text : Text} {m : Match}
    (hm : p.find? text = some m) {i : Nat} (hi : p.groupDoubt i .no = .no) {c : Capture}
    (hc : (i, c) ∈ m.groups) :
    ∃ a b, text = a ++ (c.text ++ b) ∧ c.start = byteLength a ∧
      insideAfter false a = false ∧ ownedAfter false a = false := by
  obtain ⟨u, v, rfl, hfits⟩ := exists_fits_of_find? hp hm
  have hno : Doubt.no.Covers false false := ⟨by simp, by simp⟩
  obtain ⟨a, b, rfl, hstart, hcovers⟩ := hfits.covers_groupDoubt hno hc
  rw [hi] at hcovers
  refine ⟨a, b ++ v, by simp, by simpa [between] using hstart, ?_, ?_⟩
  · exact Bool.eq_false_iff.mpr fun h => by simpa [Doubt.no] using hcovers.inside h
  · exact Bool.eq_false_iff.mpr fun h => by simpa [Doubt.no] using hcovers.owned h

end Pattern
end KrlWorkbench
