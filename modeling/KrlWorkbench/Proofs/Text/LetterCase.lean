import KrlWorkbench.Proofs.Text.Cuts
import KrlWorkbench.Text.WordChar

/-!
# Texts up to the case of ASCII letters

Two texts are equal up to case when `upper` sends them to the same text.  A class of characters
that does not tell a small ASCII letter from its capital commutes with `upper`;
`upperChar_induction` reduces that to twenty-six cases.
-/

namespace KrlWorkbench.Text

/-! ## Characters -/

/-- The small ASCII letters. -/
def smallLetters : Text :=
  "abcdefghijklmnopqrstuvwxyz".toList

lemma ofNat_mem_smallLetters : ∀ n < 123, 97 ≤ n → Char.ofNat n ∈ smallLetters := by
  decide

lemma upperChar_eq_self_or_mem (c : Char) : upperChar c = c ∨ c ∈ smallLetters := by
  rw [upperChar]
  split
  case isTrue h =>
    have hlow : 97 ≤ c.toNat := h.1
    have hhigh : c.toNat ≤ 122 := h.2
    rw [← Char.ofNat_toNat c]
    exact .inr (ofNat_mem_smallLetters c.toNat (by omega) hlow)
  case isFalse => exact .inl rfl

/-- What holds of each character with itself and of each small letter with its capital holds of
each character and its upper case. -/
lemma upperChar_induction {motive : Char → Char → Prop} (self : ∀ c, motive c c)
    (small : ∀ c ∈ smallLetters, motive c (upperChar c)) (c : Char) : motive c (upperChar c) := by
  rcases upperChar_eq_self_or_mem c with h | h
  · rw [h]
    exact self c
  · exact small c h

/-- A property of characters that does not tell small letters from capitals does not see
`upperChar`. -/
lemma apply_upperChar {α : Type} (p : Char → α) (h : ∀ c ∈ smallLetters, p (upperChar c) = p c)
    (c : Char) : p (upperChar c) = p c :=
  upperChar_induction (motive := fun a b => p b = p a) (fun _ => rfl) h c

@[simp] lemma upperChar_upperChar (c : Char) : upperChar (upperChar c) = upperChar c :=
  apply_upperChar upperChar (by decide) c

@[simp] lemma utf8Size_upperChar (c : Char) : (upperChar c).utf8Size = c.utf8Size :=
  apply_upperChar Char.utf8Size (by decide) c

@[simp] lemma isBlank_upperChar (c : Char) : isBlank (upperChar c) = isBlank c :=
  apply_upperChar isBlank (by decide) c

@[simp] lemma isAscii_upperChar (c : Char) : isAscii (upperChar c) = isAscii c :=
  apply_upperChar isAscii (by decide) c

@[simp] lemma isDigit_upperChar (c : Char) : isDigit (upperChar c) = isDigit c :=
  apply_upperChar isDigit (by decide) c

@[simp] lemma isNameChar_upperChar (c : Char) : isNameChar (upperChar c) = isNameChar c :=
  apply_upperChar isNameChar (by decide) c

@[simp] lemma isNameStart_upperChar (c : Char) : isNameStart (upperChar c) = isNameStart c :=
  apply_upperChar isNameStart (by decide) c

lemma upperChar_eq_iff {d : Char} (hd : isLetter d = false) {c : Char} :
    upperChar c = d ↔ c = d := by
  rcases upperChar_eq_self_or_mem c with h | h
  · rw [h]
  · have hletters : ∀ e ∈ smallLetters, isLetter e = true ∧ isLetter (upperChar e) = true := by
      decide
    obtain ⟨hc, hu⟩ := hletters c h
    constructor
    · rintro rfl
      simp [hu] at hd
    · rintro rfl
      simp [hc] at hd

lemma beq_upperChar {d : Char} (hd : isLetter d = false) (c : Char) :
    (upperChar c == d) = (c == d) :=
  Bool.eq_iff_iff.mpr (by simpa using upperChar_eq_iff hd)

/-! ## Texts -/

@[simp] lemma upper_nil : upper [] = [] := rfl

@[simp] lemma upper_cons (c : Char) (rest : Text) :
    upper (c :: rest) = upperChar c :: upper rest := rfl

@[simp] lemma upper_append (a b : Text) : upper (a ++ b) = upper a ++ upper b :=
  List.map_append

@[simp] lemma upper_upper (a : Text) : upper (upper a) = upper a := by
  simp [upper]

@[simp] lemma upper_eq_nil {a : Text} : upper a = [] ↔ a = [] := by
  simp [upper]

@[simp] lemma length_upper (a : Text) : (upper a).length = a.length := by
  simp [upper]

@[simp] lemma byteLength_upper (a : Text) : byteLength (upper a) = byteLength a := by
  induction a with
  | nil => rfl
  | cons c rest ih => simp [ih]

lemma upper_reverse (a : Text) : upper a.reverse = (upper a).reverse := by
  simp [upper]

lemma head?_upper (a : Text) : (upper a).head? = a.head?.map upperChar := by
  simp [upper]

lemma takeWhile_upper {p : Char → Bool} (h : ∀ c, p (upperChar c) = p c) (a : Text) :
    (upper a).takeWhile p = upper (a.takeWhile p) := by
  rw [upper, List.takeWhile_map, upper]
  congr 2
  exact funext h

lemma dropWhile_upper {p : Char → Bool} (h : ∀ c, p (upperChar c) = p c) (a : Text) :
    (upper a).dropWhile p = upper (a.dropWhile p) := by
  rw [upper, List.dropWhile_map, upper]
  congr 2
  exact funext h

/-! ## Names -/

lemma isNameChar_of_isIdentifier {name : Text} (h : isIdentifier name = true) :
    ∀ c ∈ name, isNameChar c = true := by
  cases name with
  | nil => simp
  | cons c rest =>
    simp only [isIdentifier, Bool.and_eq_true, List.all_eq_true] at h
    intro d hd
    rcases List.mem_cons.mp hd with rfl | hd
    · have hstart := h.1
      simp only [isNameStart, isNameChar, Bool.or_eq_true] at hstart ⊢
      tauto
    · exact h.2 d hd

end KrlWorkbench.Text
