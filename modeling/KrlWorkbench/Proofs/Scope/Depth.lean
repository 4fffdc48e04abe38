import KrlWorkbench.Scope.Window
import Mathlib.Data.List.Basic
import Mathlib.Tactic.Common

/-!
# Depth in a word of openers and closers

Several searches look for the partner of an opener or a closer by counting: they keep the number of
blocks that were opened on the way and stop at the first closer that finds it at zero.
`depthAfter` is that count as a function of its own.  It has no value where a closer closes nothing,
so `depthAfter 0 word = some 0` says that a word is nested, which `nested_iff` confirms against the
grammar `Nested`.

The laws are those of a height: words are read one after the other (`depthAfter_append`), a greater
depth stays greater by as much (`depthAfter_add`), and read backwards a word takes the depths back
(`depthAfter_turned`).  A word that comes down to where it began has a closer with a nested word in
front of it (`exists_closer_of_depthAfter`), and the search downward stops exactly there
(`Window.closerBelow_eq_some_iff`).  The search upward is the search downward in the word read
backwards (`Window.openerAbove_eq`).
-/

namespace KrlWorkbench

open List

namespace ScopeMark

/-! ## The count -/

/-- The depth behind a word that is read from depth `d`, if no closer in it is met at depth zero. -/
def depthAfter : Nat → List ScopeMark → Option Nat
  | d, [] => some d
  | d, .opener :: word => depthAfter (d + 1) word
  | 0, .closer :: _ => none
  | d + 1, .closer :: word => depthAfter d word
  | d, .neither :: word => depthAfter d word

@[simp] lemma depthAfter_nil (d : Nat) : depthAfter d [] = some d := by
  rw [depthAfter]

@[simp] lemma depthAfter_opener (d : Nat) (word : List ScopeMark) :
    depthAfter d (.opener :: word) = depthAfter (d + 1) word := by
  rw [depthAfter]

@[simp] lemma depthAfter_closer_zero (word : List ScopeMark) :
    depthAfter 0 (.closer :: word) = none := by
  rw [depthAfter]

@[simp] lemma depthAfter_closer_succ (d : Nat) (word : List ScopeMark) :
    depthAfter (d + 1) (.closer :: word) = depthAfter d word := by
  rw [depthAfter]

@[simp] lemma depthAfter_neither (d : Nat) (word : List ScopeMark) :
    depthAfter d (.neither :: word) = depthAfter d word := by
  rw [depthAfter]

variable {d e : Nat} {word : List ScopeMark}

lemma depthAfter_append (d : Nat) (word rest : List ScopeMark) :
    depthAfter d (word ++ rest) = (depthAfter d word).bind fun e => depthAfter e rest := by
  fun_induction depthAfter d word with
  | case1 => simp
  | case2 d word ih => simpa using ih
  | case3 => simp
  | case4 d word ih => simpa using ih
  | case5 d word ih => simpa using ih

/-- What is open in front of a word and not closed in it is open behind it. -/
lemma depthAfter_add (h : depthAfter d word = some e) (n : Nat) :
    depthAfter (d + n) word = some (e + n) := by
  fun_induction depthAfter d word with
  | case1 d => simpa using h
  | case2 d word ih => simpa [Nat.add_right_comm] using ih h
  | case3 => simp at h
  | case4 d word ih => simpa [Nat.add_right_comm] using ih h
  | case5 d word ih => simpa using ih h

/-- The depth behind a word tells the depth in front of it. -/
lemma eq_of_depthAfter_eq {d' : Nat} (h : depthAfter d word = some e)
    (h' : depthAfter d' word = some e) : d = d' := by
  rcases Nat.le_total d d' with hle | hle
  · have hadd := depthAfter_add h (d' - d)
    rw [Nat.add_sub_cancel' hle, h', Option.some.injEq] at hadd
    omega
  · have hadd := depthAfter_add h' (d - d')
    rw [Nat.add_sub_cancel' hle, h, Option.some.injEq] at hadd
    omega

/-- A word that is read without fail and goes on to come down is read without fail alone. -/
lemma exists_depthAfter_of_append {rest : List ScopeMark}
    (h : depthAfter d (word ++ rest) = some e) :
    ∃ m, depthAfter d word = some m ∧ depthAfter m rest = some e := by
  rw [depthAfter_append] at h
  exact Option.bind_eq_some_iff.mp h

/-! ## Words read backwards -/

/-- The mark as it is met from the other side. -/
def turned : ScopeMark → ScopeMark
  | .opener => .closer
  | .closer => .opener
  | .neither => .neither

/-- Read backwards, a word takes the depth back to where it was. -/
lemma depthAfter_turned (h : depthAfter d word = some e) :
    depthAfter e (word.reverse.map turned) = some d := by
  fun_induction depthAfter d word with
  | case1 d =>
    obtain rfl := Option.some.inj h
    simp
  | case2 d word ih =>
    rw [reverse_cons, map_append, depthAfter_append, ih h]
    simp [turned]
  | case3 => simp at h
  | case4 d word ih =>
    rw [reverse_cons, map_append, depthAfter_append, ih h]
    simp [turned]
  | case5 d word ih =>
    rw [reverse_cons, map_append, depthAfter_append, ih h]
    simp [turned]

lemma turned_turned (m : ScopeMark) : m.turned.turned = m := by
  cases m <;> rfl

lemma map_turned_turned (word : List ScopeMark) : (word.map turned).map turned = word := by
  rw [map_map]
  exact (map_congr_left fun m _ => turned_turned m).trans word.map_id

/-- The depths of a word read backwards are those of the word. -/
lemma depthAfter_of_turned (h : depthAfter e (word.reverse.map turned) = some d) :
    depthAfter d word = some e := by
  have hback := depthAfter_turned h
  rwa [← map_reverse, reverse_reverse, map_turned_turned] at hback

/-! ## The closer that comes down -/

/-- A word that comes down below depth `d + 1` holds a closer that does so first.  The induction is
on the word, where `n` more blocks have been opened on the way. -/
lemma exists_closer_of_depthAfter_add {n : Nat} (h : depthAfter (d + 1 + n) word = some e)
    (hle : e ≤ d) :
    ∃ inner rest, word = inner ++ .closer :: rest ∧ depthAfter n inner = some 0 ∧
      depthAfter d rest = some e := by
  induction word generalizing n with
  | nil =>
    rw [depthAfter_nil, Option.some.injEq] at h
    omega
  | cons m word ih =>
    cases m with
    | opener =>
      obtain ⟨inner, rest, rfl, hinner, hrest⟩ := ih (n := n + 1) h
      exact ⟨.opener :: inner, rest, rfl, by simpa using hinner, hrest⟩
    | closer =>
      cases n with
      | zero => exact ⟨[], word, rfl, by simp, by simpa using h⟩
      | succ n =>
        obtain ⟨inner, rest, rfl, hinner, hrest⟩ := ih h
        exact ⟨.closer :: inner, rest, rfl, by simpa using hinner, hrest⟩
    | neither =>
      obtain ⟨inner, rest, rfl, hinner, hrest⟩ := ih (by simpa using h)
      exact ⟨.neither :: inner, rest, rfl, by simpa using hinner, hrest⟩

lemma exists_closer_of_depthAfter (h : depthAfter (d + 1) word = some e) (hle : e ≤ d) :
    ∃ inner rest, word = inner ++ .closer :: rest ∧ depthAfter 0 inner = some 0 ∧
      depthAfter d rest = some e :=
  exists_closer_of_depthAfter_add (n := 0) h hle

/-! ## Nested words -/

/-- The words in which every opener has a closer behind it and every closer an opener before it. -/
inductive Nested : List ScopeMark → Prop
  | nil : Nested []
  | plain {rest : List ScopeMark} (hrest : Nested rest) : Nested (.neither :: rest)
  | block {inner rest : List ScopeMark} (hinner : Nested inner) (hrest : Nested rest) :
      Nested (.opener :: (inner ++ .closer :: rest))

lemma Nested.depthAfter_eq (h : Nested word) (d : Nat) : depthAfter d word = some d := by
  induction h generalizing d with
  | nil => simp
  | plain _ ih => simpa using ih d
  | block _ _ ihinner ihrest => simp [depthAfter_append, ihinner, ihrest]

/-- **Nested words are those that come back to depth zero.** -/
lemma nested_iff : Nested word ↔ depthAfter 0 word = some 0 := by
  refine ⟨fun h => h.depthAfter_eq 0, fun h => ?_⟩
  induction hn : word.length using Nat.strongRecOn generalizing word with
  | ind n ih =>
    cases word with
    | nil => exact .nil
    | cons m word =>
      cases m with
      | opener =>
        obtain ⟨inner, rest, rfl, hinner, hrest⟩ :=
          exists_closer_of_depthAfter (by simpa using h) (Nat.le_refl 0)
        rw [length_cons, length_append, length_cons] at hn
        exact .block (ih inner.length (by omega) hinner rfl)
          (ih rest.length (by omega) hrest rfl)
      | closer => simp at h
      | neither =>
        rw [length_cons] at hn
        exact .plain (ih word.length (by omega) (by simpa using h) rfl)

instance (word : List ScopeMark) : Decidable (Nested word) :=
  decidable_of_iff _ nested_iff.symm

end ScopeMark

namespace Window

open ScopeMark

/-! ## The two searches -/

/-- The mark with index `n` is the first closer that is met at depth zero, from depth `d` on. -/
def ClosesAt (d : Nat) (marks : List ScopeMark) (n : Nat) : Prop :=
  ∃ inner below, marks = inner ++ .closer :: below ∧ depthAfter d inner = some 0 ∧ inner.length = n

/-- A mark that only changes the depth puts the closer one further on. -/
lemma closesAt_cons {d d' n : Nat} {m : ScopeMark} {marks : List ScopeMark}
    (hdepth : ∀ word, depthAfter d (m :: word) = depthAfter d' word) (hm : m = .closer → d ≠ 0) :
    ClosesAt d (m :: marks) n ↔ ∃ k, ClosesAt d' marks k ∧ k + 1 = n := by
  constructor
  · rintro ⟨_ | ⟨m', inner⟩, below, heq, hinner, rfl⟩
    · obtain ⟨rfl, -⟩ := List.cons.inj heq
      exact absurd (by simpa using hinner) (hm rfl)
    · obtain ⟨rfl, rfl⟩ := List.cons.inj heq
      exact ⟨inner.length, ⟨inner, below, rfl, (hdepth inner).symm.trans hinner, rfl⟩, rfl⟩
  · rintro ⟨k, ⟨inner, below, rfl, hinner, rfl⟩, rfl⟩
    exact ⟨m :: inner, below, rfl, (hdepth inner).trans hinner, rfl⟩

/-- **What the search downward finds**: the first closer at depth zero. -/
lemma closerBelow_eq_some_iff {d n : Nat} {marks : List ScopeMark} :
    closerBelow d marks = some n ↔ ClosesAt d marks n := by
  induction marks generalizing d n with
  | nil => simp [closerBelow, ClosesAt]
  | cons m marks ih =>
    cases m with
    | opener =>
      rw [closerBelow, Option.map_eq_some_iff, closesAt_cons (depthAfter_opener d) (by simp)]
      simp only [ih]
    | closer =>
      cases d with
      | zero =>
        rw [closerBelow, if_pos rfl, Option.some.injEq]
        constructor
        · rintro rfl
          exact ⟨[], marks, rfl, by simp, rfl⟩
        · rintro ⟨_ | ⟨m, inner⟩, below, heq, hinner, rfl⟩
          · rfl
          · obtain ⟨rfl, -⟩ := List.cons.inj heq
            simp at hinner
      | succ d =>
        rw [closerBelow, if_neg (Nat.succ_ne_zero d), Nat.add_sub_cancel,
          Option.map_eq_some_iff, closesAt_cons (depthAfter_closer_succ d) (by simp)]
        simp only [ih]
    | neither =>
      rw [closerBelow, Option.map_eq_some_iff, closesAt_cons (depthAfter_neither d) (by simp)]
      simp only [ih]

/-- The search upward is the search downward among the marks turned round. -/
lemma openerAbove_eq (d : Nat) (marks : List ScopeMark) :
    openerAbove d marks = closerBelow d (marks.map turned) := by
  induction marks generalizing d with
  | nil => rfl
  | cons m marks ih =>
    cases m with
    | opener => rw [openerAbove, ih, map_cons, turned, closerBelow]
    | closer => rw [openerAbove, ih, map_cons, turned, closerBelow]
    | neither => rw [openerAbove, ih, map_cons, turned, closerBelow]

end Window

end KrlWorkbench
