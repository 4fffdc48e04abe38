import KrlWorkbench.Proofs.Text.FoldClass
import Mathlib.Data.List.TakeWhile

/-!
# Words

A word is a run of word characters, and a whole word is one that nothing lengthens on either side.
Words are compared up to case, by folding every character.  For ASCII texts that is the comparison
of their upper case (`upper_eq_of_sameWord`, `sameWord_of_upper_eq`).
-/

namespace KrlWorkbench.Text

open List

variable {w x : Text} {c : Char}

/-- A text of word characters. -/
structure IsWord (w : Text) : Prop where
  ne_nil : w ≠ []
  chars : ∀ c ∈ w, isWordChar c = true

/-- Whether a text begins with a word. -/
def startsWord (text : Text) : Bool :=
  text.head?.any isWordChar

/-- Whether a text ends in a word. -/
def endsWord (text : Text) : Bool :=
  text.getLast?.any isWordChar

@[simp] lemma startsWord_nil : startsWord [] = false := rfl

@[simp] lemma startsWord_cons (c : Char) (rest : Text) :
    startsWord (c :: rest) = isWordChar c := rfl

@[simp] lemma endsWord_nil : endsWord [] = false := rfl

lemma IsWord.startsWord_append (hw : IsWord w) (rest : Text) : startsWord (w ++ rest) = true := by
  obtain ⟨c, w, rfl⟩ := exists_cons_of_ne_nil hw.ne_nil
  exact hw.chars c mem_cons_self

lemma endsWord_append {b : Text} (hb : b ≠ []) (a : Text) : endsWord (a ++ b) = endsWord b := by
  rw [endsWord, endsWord, getLast?_append_of_ne_nil _ hb]

lemma IsWord.endsWord (hw : IsWord w) : endsWord w = true := by
  rw [Text.endsWord, getLast?_eq_some_getLast hw.ne_nil]
  exact hw.chars _ (getLast_mem hw.ne_nil)

lemma any_head?_dropWhile (p : Char → Bool) (t : Text) : (t.dropWhile p).head?.any p = false := by
  have hhead := head?_dropWhile_not p t
  cases h : (t.dropWhile p).head? with
  | none => rfl
  | some c => simpa [h] using hhead

lemma startsWord_dropWhile (text : Text) : startsWord (text.dropWhile isWordChar) = false :=
  any_head?_dropWhile isWordChar text

lemma isWord_cons_takeWhile (hc : isWordChar c = true) (rest : Text) :
    IsWord (c :: rest.takeWhile isWordChar) :=
  ⟨by simp, forall_mem_cons.mpr ⟨hc, fun _ => mem_takeWhile_imp⟩⟩

lemma IsWord.takeWhile_append {rest : Text} (hw : IsWord w) (hrest : startsWord rest = false) :
    (w ++ rest).takeWhile isWordChar = w := by
  rw [takeWhile_append_of_pos hw.chars]
  cases rest with
  | nil => simp
  | cons c rest => simp [show isWordChar c = false from hrest]

lemma IsWord.append_inj {w' rest rest' : Text} (hw : IsWord w) (hw' : IsWord w')
    (hrest : startsWord rest = false) (hrest' : startsWord rest' = false)
    (h : w ++ rest = w' ++ rest') : w = w' ∧ rest = rest' := by
  obtain rfl : w = w' := by rw [← hw.takeWhile_append hrest, h, hw'.takeWhile_append hrest']
  exact ⟨rfl, append_cancel_left h⟩

/-! ## Equality up to case -/

/-- A text with letters that differ only in case made equal. -/
def folded (w : Text) : Text :=
  w.map fold

/-- Whether texts are equal up to case. -/
def sameWord (x w : Text) : Bool :=
  folded x == folded w

lemma sameWord_iff : sameWord x w = true ↔ folded x = folded w := by
  rw [sameWord, beq_iff_eq]

lemma sameFold_iff {a b : Char} : sameFold a b = true ↔ fold a = fold b := by
  rw [sameFold, Bool.or_eq_true, beq_iff_eq, beq_iff_eq]
  constructor
  · rintro (rfl | h)
    · rfl
    · exact h
  · exact .inr

lemma sameWord_comm (x w : Text) : sameWord x w = sameWord w x :=
  BEq.comm

lemma sameWord_nil_left : sameWord [] w = true ↔ w = [] := by
  rw [sameWord_iff]
  cases w <;> simp [folded]

lemma sameWord_cons_cons {d : Char} :
    sameWord (d :: x) (c :: w) = true ↔ sameFold d c = true ∧ sameWord x w = true := by
  rw [sameWord_iff, sameWord_iff, sameFold_iff]
  simp [folded]

lemma length_eq_of_sameWord (h : sameWord x w = true) : w.length = x.length := by
  have hlen := congrArg List.length (sameWord_iff.mp h)
  simpa [folded] using hlen.symm

lemma isWordChar_of_sameWord (hx : ∀ d ∈ x, isNameChar d = true) (h : sameWord x w = true) :
    ∀ c ∈ w, isWordChar c = true := by
  induction x generalizing w with
  | nil =>
    obtain rfl := sameWord_nil_left.mp h
    simp
  | cons d x ih =>
    have hd := hx d mem_cons_self
    cases w with
    | nil => simp
    | cons c w =>
      obtain ⟨hc, hw⟩ := sameWord_cons_cons.mp h
      refine forall_mem_cons.mpr ⟨?_, ih (forall_mem_cons.mp hx).2 hw⟩
      rw [isWordChar_of_sameFold (isAscii_of_isNameChar hd) hc, hd]

lemma isWord_of_sameWord (hne : x ≠ []) (hx : ∀ d ∈ x, isNameChar d = true)
    (h : sameWord x w = true) : IsWord w := by
  refine ⟨?_, isWordChar_of_sameWord hx h⟩
  rintro rfl
  have hlen := length_eq_of_sameWord h
  exact hne (eq_nil_of_length_eq_zero hlen.symm)

/-! ## Names -/

lemma ne_nil_of_isIdentifier (hx : isIdentifier x = true) : x ≠ [] := by
  rintro rfl
  simp [isIdentifier] at hx

lemma isWord_of_sameName (hx : isIdentifier x = true) (h : sameWord x w = true) : IsWord w :=
  isWord_of_sameWord (ne_nil_of_isIdentifier hx) (isNameChar_of_isIdentifier hx) h

lemma sameWord_refl (w : Text) : sameWord w w = true :=
  sameWord_iff.mpr rfl

lemma isWord_of_isIdentifier (hx : isIdentifier x = true) : IsWord x :=
  isWord_of_sameName hx (sameWord_refl x)

lemma fold_of_isAscii (h : isAscii c = true) : fold c = lowerAscii c := by
  simp [fold, h]

lemma upperChar_lowerAscii (h : isAscii c = true) : upperChar (lowerAscii c) = upperChar c :=
  forall_of_isAscii (P := fun c => upperChar (lowerAscii c) = upperChar c) (by decide) h

lemma fold_upperChar (c : Char) : fold (upperChar c) = fold c :=
  apply_upperChar fold (by decide +kernel) c

lemma sameFold_upperChar (k c : Char) : sameFold k (upperChar c) = sameFold k c := by
  rw [Bool.eq_iff_iff, sameFold_iff, sameFold_iff, fold_upperChar]

lemma folded_upper (w : Text) : folded (upper w) = folded w := by
  rw [folded, folded, upper, map_map]
  exact map_congr_left fun c _ => fold_upperChar c

lemma upper_eq_of_sameWord (hx : ∀ c ∈ x, isAscii c = true) (hw : ∀ c ∈ w, isAscii c = true)
    (h : sameWord x w = true) : upper x = upper w := by
  have hupper : ∀ a : Text, (∀ c ∈ a, isAscii c = true) → upper (folded a) = upper a := by
    intro a ha
    rw [folded, upper, upper, map_map]
    refine map_congr_left fun c hc => ?_
    rw [Function.comp_apply, fold_of_isAscii (ha c hc), upperChar_lowerAscii (ha c hc)]
  rw [← hupper x hx, ← hupper w hw, sameWord_iff.mp h]

lemma sameWord_of_upper_eq (h : upper x = upper w) : sameWord x w = true := by
  rw [sameWord_iff, ← folded_upper x, ← folded_upper w, h]

lemma isWordChar_upperChar (c : Char) : isWordChar (upperChar c) = isWordChar c :=
  apply_upperChar isWordChar (by decide) c

lemma isWord_upper : IsWord (upper w) ↔ IsWord w := by
  constructor
  · rintro ⟨hne, hchars⟩
    refine ⟨fun hnil => hne (by rw [hnil, upper_nil]), fun c hc => ?_⟩
    rw [← isWordChar_upperChar]
    exact hchars _ (mem_map_of_mem hc)
  · rintro ⟨hne, hchars⟩
    refine ⟨fun hnil => hne (upper_eq_nil.mp hnil), fun c hc => ?_⟩
    obtain ⟨d, hd, rfl⟩ := mem_map.mp hc
    rw [isWordChar_upperChar]
    exact hchars d hd

lemma sameWord_upper_left (w v : Text) : sameWord (upper w) v = sameWord w v := by
  rw [sameWord, sameWord, folded_upper]

end KrlWorkbench.Text
