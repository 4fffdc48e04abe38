import KrlWorkbench.Pattern.Basic
import KrlWorkbench.Proofs.Text.Cuts

/-!
# Pieces of a text and their replacement

Tokens, matches and uses of a name are pieces of a text: each is a text and the byte offset at
which it stands.  `Placed` says that a list of pieces stands in a text in this order and without
overlap.  It is an inductive predicate, so that a proof about pieces goes gap by gap through the
text and never computes with offsets.

`substitute` writes something else in the place of each piece.  What a replacement keeps is said
here once: a replacement of the same length keeps the places (`Placed.map_substitute`), and one
that leaves each piece as it is leaves the text as it is (`substitute_eq_self`).  One that works
character by character changes the characters of the pieces only (`getElem?_substitute_map`).
-/

namespace KrlWorkbench

open List Capture Text

variable {pieces' : List Capture}

/-- The pieces stand in the text one behind the other, where `here` is the byte offset at which
the text begins. -/
inductive Placed : Nat → Text → List Capture → Prop
  | nil (here : Nat) (text : Text) : Placed here text []
  | cons {here : Nat} {gap rest : Text} {piece : Capture} {pieces : List Capture}
      (hstart : piece.start = here + byteLength gap) (hrest : Placed piece.stop rest pieces) :
      Placed here (gap ++ (piece.text ++ rest)) (piece :: pieces)

/-- A piece moved on by some bytes. -/
def Capture.shift (bytes : Nat) (c : Capture) : Capture :=
  ⟨bytes + c.start, c.text⟩

lemma Capture.stop_shift (bytes : Nat) (c : Capture) : (c.shift bytes).stop = bytes + c.stop := by
  rw [stop, stop, shift, Nat.add_assoc]

/-- The byte offset falls into the piece. -/
def Capture.Covers (p : Capture) (offset : Nat) : Prop :=
  p.start ≤ offset ∧ offset < p.stop

instance (p : Capture) (offset : Nat) : Decidable (p.Covers offset) :=
  inferInstanceAs (Decidable (_ ∧ _))

namespace Placed

variable {here : Nat} {text : Text} {piece : Capture} {pieces : List Capture}

lemma append_left {lead : Text} (h : Placed (here + byteLength lead) text pieces) :
    Placed here (lead ++ text) pieces := by
  cases h with
  | nil => exact .nil _ _
  | @cons _ gap rest piece pieces hstart hrest =>
    have hstart' : piece.start = here + byteLength (lead ++ gap) := by
      rw [hstart, byteLength_append, Nat.add_assoc]
    simpa using Placed.cons hstart' hrest

lemma stop_add {gap : Text} (hstart : piece.start = here + byteLength gap) (rest : Text) :
    piece.stop + byteLength rest = here + byteLength (gap ++ (piece.text ++ rest)) := by
  rw [stop, hstart]
  simp only [byteLength_append]
  omega

variable (h : Placed here text pieces)
include h

lemma shift (bytes : Nat) : Placed (bytes + here) text (pieces.map (Capture.shift bytes)) := by
  induction h with
  | nil => exact .nil _ _
  | @cons here gap rest piece pieces hstart _ ih =>
    refine @Placed.cons _ gap rest (piece.shift bytes) _ ?_ ?_
    · simp only [Capture.shift, hstart, Nat.add_assoc]
    · rwa [Capture.stop_shift]

lemma append {text' : Text} (h' : Placed (here + byteLength text) text' pieces') :
    Placed here (text ++ text') (pieces ++ pieces') := by
  induction h with
  | nil => exact append_left h'
  | @cons here gap rest piece pieces hstart _ ih =>
    rw [append_assoc, append_assoc, cons_append]
    refine .cons hstart (ih ?_)
    rwa [stop_add hstart]

lemma append_right (tail : Text) : Placed here (text ++ tail) pieces := by
  simpa using h.append (.nil _ tail)

lemma sublist {kept : List Capture} (hkept : kept.Sublist pieces) :
    Placed here text kept := by
  induction h generalizing kept with
  | nil =>
    rw [sublist_nil.mp hkept]
    exact .nil _ _
  | @cons here gap rest piece pieces hstart _ ih =>
    cases hkept with
    | cons _ hkept =>
      have hstop : piece.stop = here + byteLength (gap ++ piece.text) := by
        rw [stop, hstart, byteLength_append, Nat.add_assoc]
      have hrest := ih hkept
      rw [hstop] at hrest
      simpa using hrest.append_left
    | cons_cons _ hkept => exact .cons hstart (ih hkept)

lemma exists_append_of_mem (hp : piece ∈ pieces) :
    ∃ before after, text = before ++ (piece.text ++ after) ∧
      piece.start = here + byteLength before := by
  induction h with
  | nil => simp at hp
  | @cons here gap rest first pieces hstart _ ih =>
    rcases mem_cons.mp hp with rfl | hp
    · exact ⟨gap, rest, rfl, hstart⟩
    · obtain ⟨before, after, rfl, hbefore⟩ := ih hp
      refine ⟨gap ++ (first.text ++ before), after, by simp, ?_⟩
      rw [hbefore, stop, hstart]
      simp [Nat.add_assoc]

lemma stop_le (hp : piece ∈ pieces) : piece.stop ≤ here + byteLength text := by
  obtain ⟨before, after, rfl, hstart⟩ := h.exists_append_of_mem hp
  rw [stop, hstart]
  simp [Nat.add_assoc]

lemma le_start (hp : piece ∈ pieces) : here ≤ piece.start := by
  obtain ⟨before, -, -, hstart⟩ := h.exists_append_of_mem hp
  omega

lemma pairwise_stop_le : pieces.Pairwise fun p q => p.stop ≤ q.start := by
  induction h with
  | nil => exact .nil
  | cons _ hrest ih => exact .cons (fun q hq => hrest.le_start hq) ih

/-- Offsets and lengths determine the pieces of a text. -/
lemma eq_of_map_eq (h' : Placed here text pieces')
    (heq : pieces.map (fun p => (p.start, byteLength p.text)) =
      pieces'.map fun p => (p.start, byteLength p.text)) : pieces = pieces' := by
  induction h generalizing pieces' with
  | nil =>
    cases pieces' with
    | nil => rfl
    | cons piece' pieces' => simp at heq
  | @cons here gap rest piece pieces hstart _ ih =>
    generalize htext : gap ++ (piece.text ++ rest) = text at h'
    cases h' with
    | nil => simp at heq
    | @cons _ gap' rest' piece' pieces' hstart' hrest' =>
      simp only [map_cons, List.cons.injEq, Prod.mk.injEq] at heq
      obtain ⟨⟨hs, hlen⟩, heq⟩ := heq
      obtain ⟨rfl, htail⟩ := append_inj_of_byteLength htext (by omega)
      obtain ⟨htext, rfl⟩ := append_inj_of_byteLength htail hlen
      have hpiece : piece = piece' := by
        cases piece
        cases piece'
        simp_all
      subst hpiece
      rw [ih hrest' heq]

end Placed

/-! ## Replacement -/

/-- The text with `f` of each piece in the piece's place, where `here` is the byte offset at which
the text begins. -/
def substitute (f : Capture → Text) : Nat → Text → List Capture → Text
  | _, text, [] => text
  | here, text, piece :: pieces =>
    takeBytes (piece.start - here) text ++
      (f piece ++ substitute f piece.stop (dropBytes (piece.stop - here) text) pieces)

variable {f : Capture → Text} {here : Nat} {text : Text} {pieces : List Capture}

@[simp] lemma substitute_nil (f : Capture → Text) (here : Nat) (text : Text) :
    substitute f here text [] = text := rfl

lemma substitute_cons (f : Capture → Text) {gap rest : Text} {piece : Capture}
    (hstart : piece.start = here + byteLength gap) (pieces : List Capture) :
    substitute f here (gap ++ (piece.text ++ rest)) (piece :: pieces) =
      gap ++ (f piece ++ substitute f piece.stop rest pieces) := by
  have hlead : piece.start - here = byteLength gap := by omega
  have hstop : piece.stop - here = byteLength (gap ++ piece.text) := by
    rw [stop, byteLength_append]
    omega
  rw [substitute, hlead, takeBytes_append, hstop, ← append_assoc gap piece.text, dropBytes_append]

lemma substitute_append_left {lead : Text} (h : Placed (here + byteLength lead) text pieces) :
    substitute f here (lead ++ text) pieces =
      lead ++ substitute f (here + byteLength lead) text pieces := by
  cases h with
  | nil => rfl
  | @cons _ gap rest piece pieces hstart _ =>
    have hstart' : piece.start = here + byteLength (lead ++ gap) := by
      rw [hstart, byteLength_append, Nat.add_assoc]
    rw [substitute_cons f hstart, ← append_assoc, substitute_cons f hstart', append_assoc]

lemma substitute_append {text' : Text} (h : Placed here text pieces)
    (h' : Placed (here + byteLength text) text' pieces') :
    substitute f here (text ++ text') (pieces ++ pieces') =
      substitute f here text pieces ++ substitute f (here + byteLength text) text' pieces' := by
  induction h with
  | nil => exact substitute_append_left h'
  | @cons here gap rest piece pieces hstart _ ih =>
    rw [← Placed.stop_add hstart] at h' ⊢
    rw [append_assoc, append_assoc, cons_append, substitute_cons f hstart,
      substitute_cons f hstart, ih h']
    simp

lemma substitute_append_right (h : Placed here text pieces) (tail : Text) :
    substitute f here (text ++ tail) pieces = substitute f here text pieces ++ tail := by
  simpa using substitute_append h (.nil _ tail)

lemma substitute_shift (new : Text) (h : Placed here text pieces) (bytes : Nat) :
    substitute (fun _ => new) (bytes + here) text (pieces.map (Capture.shift bytes)) =
      substitute (fun _ => new) here text pieces := by
  induction h with
  | nil => rfl
  | @cons here gap rest piece pieces hstart _ ih =>
    have hstart' : (piece.shift bytes).start = bytes + here + byteLength gap := by
      simp only [Capture.shift, hstart, Nat.add_assoc]
    have hstep : substitute (fun _ => new) (bytes + here)
        (gap ++ ((piece.shift bytes).text ++ rest))
        (piece.shift bytes :: pieces.map (Capture.shift bytes)) = _ :=
      substitute_cons _ hstart' _
    rw [Capture.stop_shift, ih] at hstep
    rw [substitute_cons _ hstart]
    exact hstep

lemma substitute_eq_self (h : Placed here text pieces) (hf : ∀ p ∈ pieces, f p = p.text) :
    substitute f here text pieces = text := by
  induction h with
  | nil => rfl
  | cons hstart _ ih =>
    rw [substitute_cons f hstart, ih (forall_mem_cons.mp hf).2, hf _ mem_cons_self]

/-- A replacement that a map of characters cannot tell from the pieces is one that it cannot tell
from the text. -/
lemma map_substitute (g : Char → Char) (h : Placed here text pieces)
    (hf : ∀ p ∈ pieces, (f p).map g = p.text.map g) :
    (substitute f here text pieces).map g = text.map g := by
  induction h with
  | nil => rfl
  | cons hstart _ ih =>
    rw [substitute_cons f hstart]
    simp only [map_append, hf _ mem_cons_self, ih (forall_mem_cons.mp hf).2]

/-- Replacements as long as the pieces stand where the pieces stood. -/
lemma Placed.map_substitute (h : Placed here text pieces)
    (hf : ∀ p ∈ pieces, byteLength (f p) = byteLength p.text) :
    Placed here (substitute f here text pieces) (pieces.map fun p => ⟨p.start, f p⟩) := by
  induction h with
  | nil => exact .nil _ _
  | @cons here gap rest piece pieces hstart _ ih =>
    have hstop : piece.stop = stop ⟨piece.start, f piece⟩ := by
      simp only [stop, hf piece mem_cons_self]
    rw [substitute_cons f hstart]
    refine @Placed.cons here gap _ ⟨piece.start, f piece⟩ _ hstart ?_
    rw [← hstop]
    exact ih (forall_mem_cons.mp hf).2

/-- A replacement that works character by character changes the characters of the pieces and no
others. -/
lemma getElem?_substitute_map (g : Char → Char) (h : Placed here text pieces) (i : Nat) :
    (substitute (fun p => p.text.map g) here text pieces)[i]? =
      text[i]?.map fun c =>
        if ∃ p ∈ pieces, p.Covers (here + byteLength (text.take i)) then g c else c := by
  induction h generalizing i with
  | nil => simp
  | @cons here gap rest piece pieces hstart hrest ih =>
    have hstop : piece.stop = here + byteLength gap + byteLength piece.text := by
      rw [stop, hstart]
    have hlater : ∀ p ∈ pieces, piece.stop ≤ p.start := fun p hp => hrest.le_start hp
    rw [substitute_cons _ hstart]
    by_cases hgap : i < gap.length
    · -- In front of the first piece.
      have hnone : ¬∃ p ∈ piece :: pieces, p.Covers (here + byteLength (gap.take i)) := by
        have hlt := byteLength_take_lt hgap
        rintro ⟨p, hp, hlow, -⟩
        rcases mem_cons.mp hp with rfl | hp
        · omega
        · have hp := hlater p hp
          omega
      rw [getElem?_append_left hgap, getElem?_append_left hgap,
        take_append_of_le_length (Nat.le_of_lt hgap)]
      simp only [hnone, if_false, Option.map_id']
    · obtain ⟨j, rfl⟩ := Nat.exists_eq_add_of_le (Nat.le_of_not_lt hgap)
      rw [getElem?_append_right (Nat.le_add_right _ _),
        getElem?_append_right (Nat.le_add_right _ _), Nat.add_sub_cancel_left,
        take_length_add_append, byteLength_append]
      by_cases hpiece : j < piece.text.length
      · -- In the first piece.
        have hsome : ∃ p ∈ piece :: pieces,
            p.Covers (here + (byteLength gap + byteLength (piece.text.take j))) := by
          have hlt := byteLength_take_lt hpiece
          exact ⟨piece, mem_cons_self, by omega, by omega⟩
        rw [getElem?_append_left (by simpa using hpiece), getElem?_append_left hpiece,
          take_append_of_le_length (Nat.le_of_lt hpiece), getElem?_map]
        simp only [hsome, if_true]
      · -- Behind it, where only the other pieces count.
        obtain ⟨k, rfl⟩ := Nat.exists_eq_add_of_le (Nat.le_of_not_lt hpiece)
        have hoffset : here + (byteLength gap + byteLength (piece.text ++ rest.take k)) =
            piece.stop + byteLength (rest.take k) := by
          rw [byteLength_append]
          omega
        have hothers :
            (∃ p ∈ piece :: pieces, p.Covers (piece.stop + byteLength (rest.take k))) ↔
              ∃ p ∈ pieces, p.Covers (piece.stop + byteLength (rest.take k)) := by
          rw [exists_mem_cons_iff]
          refine or_iff_right ?_
          rintro ⟨-, hhigh⟩
          omega
        rw [getElem?_append_right (by simp), getElem?_append_right (Nat.le_add_right _ _),
          length_map, Nat.add_sub_cancel_left, take_length_add_append, hoffset, ih]
        simp only [hothers]

end KrlWorkbench
