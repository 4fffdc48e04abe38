import KrlWorkbench.Code.Token
import KrlWorkbench.Proofs.Code.Clean
import KrlWorkbench.Proofs.Text.Words

/-!
# Identifiers of a line and their places

The identifiers that `Token.tokens` lists are pieces of the code, in order and apart from each
other, and each is a name.  Finding them does not depend on the case of letters: the identifiers
of `upper code` are those of `code` in upper case, at the same places.
-/

namespace KrlWorkbench.Token

open List Text

/-- The piece of text that an identifier is. -/
def capture (t : Token) : Capture :=
  ⟨t.start, t.text⟩

/-- The identifier in upper case. -/
def inUpper (t : Token) : Token :=
  { t with text := upper t.text, lead := t.lead.map upperChar }

/-! ## Places -/

/-- Induction along a scan: a name is found that goes no further, or some characters are passed
over, and no name runs on behind them. -/
lemma scan_rec {P : Text → Text → List Token → Prop} (hnil : ∀ before, P before [] [])
    (hname : ∀ before name rest found, isIdentifier name = true →
      rest.head?.any isNameChar = false → P (name.reverse ++ before) rest found →
      P before (name ++ rest)
        (⟨name, byteLength before, byteLength before + byteLength name, leadOf before⟩ :: found))
    (hskip : ∀ before skipped rest found,
      (skipped.reverse ++ before).head?.any isNameChar = false ∨ rest.head?.any isNameChar = false →
      P (skipped.reverse ++ before) rest found → P before (skipped ++ rest) found)
    (before rest : Text) : P before rest (scan before rest) := by
  fun_induction scan before rest with
  | case1 => exact hnil _
  | case2 before c rest hc name start ih =>
    have hrest : c :: rest = name ++ rest.dropWhile isNameChar := by
      simp [name, takeWhile_append_dropWhile]
    rw [hrest]
    exact hname before name _ _ (by simp [name, isIdentifier, hc]) (any_head?_dropWhile _ _) ih
  -- A number takes all that may belong to a name with it.
  | case3 before c rest _ _ ih =>
    have hrest : c :: rest =
        (c :: rest.takeWhile isNumberPart) ++ rest.dropWhile isNumberPart := by
      simp [takeWhile_append_dropWhile]
    have hstop := any_head?_dropWhile isNumberPart rest
    rw [hrest]
    refine hskip _ _ _ _ (.inr ?_) (by simpa using ih)
    cases hd : (rest.dropWhile isNumberPart).head? <;> simp_all [isNumberPart]
  -- A quote that is never closed hides the rest.
  | case4 before c rest =>
    rw [← append_nil (c :: rest)]
    exact hskip _ _ _ _ (.inr rfl) (hnil _)
  | case5 before c rest _ _ _ inner quote rest' hrest ih =>
    have hsplit : c :: rest = (c :: (inner ++ [quote])) ++ rest' := by
      have h := takeWhile_append_dropWhile (p := (· != '\'')) (l := rest)
      rw [hrest] at h
      simp [inner, h]
    obtain rfl : quote = '\'' := by simpa [hrest] using any_head?_dropWhile (· != '\'') rest
    rw [hsplit]
    exact hskip _ _ _ _ (.inl (by simp; decide)) (by simpa using ih)
  | case6 before c rest hstart hdigit _ ih =>
    exact hskip before [c] rest _ (.inl (by simp_all [isNameChar, isNameStart])) ih

lemma placed_scan (before rest : Text) :
    Placed (byteLength before) rest ((scan before rest).map capture) := by
  refine scan_rec (P := fun before rest found => Placed (byteLength before) rest
    (found.map capture)) (fun _ => .nil _ _) ?_ ?_ before rest
  · intro before name rest found _ _ ih
    refine @Placed.cons _ [] _ ⟨byteLength before, name⟩ _ rfl ?_
    simpa [Capture.stop, Nat.add_comm] using ih
  · intro before skipped rest found _ ih
    exact Placed.append_left (by simpa [Nat.add_comm] using ih)

lemma placed_tokens (code : Text) : Placed 0 code ((tokens code).map capture) := by
  simpa [tokens] using placed_scan [] code

lemma stop_eq_and_isIdentifier_of_mem_scan {before rest : Text} {t : Token}
    (h : t ∈ scan before rest) : t.stop = t.capture.stop ∧ isIdentifier t.text = true := by
  refine scan_rec (P := fun _ _ found => ∀ t ∈ found, t.stop = t.capture.stop ∧
    isIdentifier t.text = true) (fun _ => by simp) ?_ (fun _ _ _ _ _ ih => ih) before rest t h
  intro before name rest found hname _ ih
  exact forall_mem_cons.mpr ⟨⟨rfl, hname⟩, ih⟩

lemma placed_tokens_clean (line : Text) :
    Placed 0 line ((tokens (Code.clean line)).map capture) := by
  refine (placed_tokens (Code.clean line)).of_clean ?_
  intro p hp c hc
  obtain ⟨t, ht, rfl⟩ := mem_map.mp hp
  have hname := (stop_eq_and_isIdentifier_of_mem_scan ht).2
  rintro rfl
  have hspace := isNameChar_of_isIdentifier hname ' ' hc
  simp [isNameChar, isLetter, isDigit] at hspace

/-! ## Case -/

lemma isSigil_upperChar (c : Char) : isSigil (upperChar c) = isSigil c :=
  apply_upperChar isSigil (by decide) c

lemma isQualified_inUpper (t : Token) : t.inUpper.isQualified = t.isQualified := by
  simp only [isQualified, inUpper, Option.any_map, isSigil_upperChar]

lemma isNumberPart_upperChar (c : Char) : isNumberPart (upperChar c) = isNumberPart c :=
  apply_upperChar isNumberPart (by decide) c

lemma leadOf_upper (before : Text) : leadOf (upper before) = (leadOf before).map upperChar := by
  have hfind : (upper before).find? (fun c => !isBlank c) =
      (before.find? fun c => !isBlank c).map upperChar := by
    rw [upper, find?_map]
    simp only [Function.comp_def, isBlank_upperChar]
  rw [leadOf, leadOf, head?_upper]
  cases before.head? with
  | none => rfl
  | some c =>
    simp only [Option.map_some, isSigil_upperChar, hfind]
    split <;> rfl

lemma scan_upper (before rest : Text) :
    scan (upper before) (upper rest) = (scan before rest).map inUpper := by
  have hapos (c : Char) : (upperChar c == '\'') = (c == '\'') := beq_upperChar (by decide) c
  have hnapos (c : Char) : (upperChar c != '\'') = (c != '\'') := by
    simp only [bne, hapos]
  fun_induction scan before rest with
  | case1 => simp [scan]
  | case2 before c rest hc name start ih =>
    rw [upper_cons, scan, if_pos (by simpa using hc)]
    have hname : upperChar c :: (upper rest).takeWhile isNameChar = upper name := by
      rw [takeWhile_upper isNameChar_upperChar, upper_cons]
    simp only [hname, dropWhile_upper isNameChar_upperChar, leadOf_upper, byteLength_upper,
      map_cons, ← upper_reverse, ← upper_append, ih]
    rfl
  | case3 before c rest hc hdigit ih =>
    rw [upper_cons, scan, if_neg (by simpa using hc), if_pos (by simpa using hdigit),
      takeWhile_upper isNumberPart_upperChar, dropWhile_upper isNumberPart_upperChar,
      ← upper_reverse, ← upper_cons, ← upper_append, ih]
  | case4 before c rest hc hdigit hquote hrest =>
    have hrest' := dropWhile_upper (p := (· != '\'')) hnapos rest
    rw [hrest, upper_nil] at hrest'
    rw [upper_cons, scan, if_neg (by simpa using hc), if_neg (by simpa using hdigit),
      if_pos (by simpa [hapos] using hquote)]
    split
    · rfl
    · simp_all
  | case5 before c rest hc hdigit hquote inner quote rest' hrest ih =>
    have hrest' := dropWhile_upper (p := (· != '\'')) hnapos rest
    rw [hrest, upper_cons] at hrest'
    rw [upper_cons, scan, if_neg (by simpa using hc), if_neg (by simpa using hdigit),
      if_pos (by simpa [hapos] using hquote)]
    split
    case h_1 hnil => simp [hrest'] at hnil
    case h_2 quote' rest'' hcons =>
      obtain ⟨rfl, rfl⟩ := List.cons.inj (hrest'.symm.trans hcons)
      rw [← ih, takeWhile_upper (p := (· != '\'')) hnapos]
      simp [inner, upper_reverse]
  | case6 before c rest hc hdigit hquote ih =>
    rw [upper_cons, scan, if_neg (by simpa using hc), if_neg (by simpa using hdigit),
      if_neg (by simpa [hapos] using hquote), ← upper_cons, ih]

lemma tokens_upper (code : Text) : tokens (upper code) = (tokens code).map inUpper := by
  simpa [tokens] using scan_upper [] code

end KrlWorkbench.Token
