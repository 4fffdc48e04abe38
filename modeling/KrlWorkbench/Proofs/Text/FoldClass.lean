import KrlWorkbench.Proofs.Text.LetterCase
import KrlWorkbench.Text.Folding

/-!
# Which characters equal an ASCII character up to case

Folding sends an ASCII character to its small letter, and only two characters outside ASCII fold
into ASCII: the long s and the Kelvin sign (`eq_of_isAscii_fold`).  The table of folding is looked
through once for that.  What a keyword or a name of the language can match follows: its own
letters in either case and those two (`sameFold_cases`), all of them word characters and none a
blank.
-/

namespace KrlWorkbench.Text

variable {c : Char}

/-- A property of all ASCII characters, checked character by character. -/
lemma forall_of_isAscii {P : Char → Prop} (h : ∀ n < 128, P (Char.ofNat n))
    (hc : isAscii c = true) : P c := by
  have hlt : c.toNat < 128 := by simpa [isAscii] using hc
  have hp := h c.toNat hlt
  rwa [Char.ofNat_toNat] at hp

/-! ## The table of folding -/

lemma mem_of_foldingRowBetween {rows : Array FoldingRow} {n lo hi : Nat} {row : FoldingRow}
    (h : foldingRowBetween rows n lo hi = some row) :
    row ∈ rows ∧ row.first ≤ n ∧ n ≤ row.last := by
  fun_induction foldingRowBetween rows n lo hi with
  | case1 lo hi _ mid found _ ih => exact ih h
  | case2 lo hi _ mid found _ _ ih => exact ih h
  | case3 lo hi _ mid found hfirst hlast _ =>
    obtain rfl : found = row := by simpa using h
    refine ⟨?_, by omega, by omega⟩
    by_cases hmid : mid < rows.size
    · have hfound : found = rows[mid] := by simp [found, hmid]
      rw [hfound]
      exact Array.getElem_mem hmid
    · -- Beyond the table stands an empty row.
      have hfound : found = ⟨1, 0, 1, 0⟩ := by simp [found, hmid]
      rw [hfound] at hfirst hlast
      simp only at hfirst hlast
      omega
  | case4 => simp at h
  | case5 => simp at h

/-- The characters of a row fold to code points outside ASCII. -/
def FoldingRow.StaysOutside (row : FoldingRow) : Prop :=
  0x80 ≤ row.first + row.shift ∧
    (row.last + row.shift < 0xD800 ∨
      0xE000 ≤ row.first + row.shift ∧ row.last + row.shift < 0x110000)

instance (row : FoldingRow) : Decidable row.StaysOutside :=
  inferInstanceAs (Decidable (_ ∧ _))

/-- The long s. -/
def longS : Char := 'ſ'

/-- The Kelvin sign. -/
def kelvin : Char := 'K'

lemma foldingRows_cases : ∀ row ∈ foldingRows, row.StaysOutside ∨
    row.first = row.last ∧ (row.first = longS.toNat ∨ row.first = kelvin.toNat) := by
  decide +kernel

lemma isAscii_ofNat_eq_false {n : Nat} (hlow : 0x80 ≤ n)
    (hvalid : n < 0xD800 ∨ 0xE000 ≤ n ∧ n < 0x110000) : isAscii (Char.ofNat n) = false := by
  have hchar : n.isValidChar := by
    rcases hvalid with h | h
    · exact .inl h
    · exact .inr ⟨by omega, h.2⟩
  have hcode : (Char.ofNat n).toNat = n := toNat_ofNat hchar
  simp [isAscii, hcode, hlow]

/-- **Who folds into ASCII.**  Outside ASCII only the long s and the Kelvin sign do. -/
lemma eq_of_isAscii_fold (hc : isAscii c = false) (h : isAscii (fold c) = true) :
    c = longS ∨ c = kelvin := by
  rw [fold, hc] at h
  simp only [Bool.false_eq_true, if_false] at h
  split at h
  case h_1 row hrow =>
    obtain ⟨hmem, hfirst, hlast⟩ := mem_of_foldingRowBetween hrow
    rcases foldingRows_cases row hmem with hstays | ⟨hsingle, hcode⟩
    · exfalso
      have hfalse := isAscii_ofNat_eq_false (n := ((c.toNat : Int) + row.shift).toNat)
        (by have := hstays.1; omega) (by rcases hstays.2 with h | h <;> omega)
      rw [hfalse] at h
      simp at h
    · have hval : c.toNat = row.first := by omega
      rcases hcode with hcode | hcode
      · exact .inl (Char.toNat_inj.mp (hval.trans hcode))
      · exact .inr (Char.toNat_inj.mp (hval.trans hcode))
  case h_2 => simp [hc] at h

lemma fold_longS : fold longS = 's' := by
  decide +kernel

lemma fold_kelvin : fold kelvin = 'k' := by
  decide +kernel

lemma isAscii_lowerAscii (hc : isAscii c = true) : isAscii (lowerAscii c) = true :=
  forall_of_isAscii (P := fun c => isAscii (lowerAscii c) = true) (by decide) hc

lemma sameFold_cases {k : Char} (hk : isAscii k = true) (h : sameFold k c = true) :
    isAscii c = true ∧ lowerAscii c = lowerAscii k ∨ c = longS ∧ lowerAscii k = 's' ∨
      c = kelvin ∧ lowerAscii k = 'k' := by
  have hfold : fold c = lowerAscii k := by
    have hk' : fold k = lowerAscii k := by simp [fold, hk]
    rw [sameFold, Bool.or_eq_true, beq_iff_eq, beq_iff_eq] at h
    rcases h with rfl | h
    · exact hk'
    · rw [← h, hk']
  cases hc : isAscii c with
  | true =>
    have hc' : fold c = lowerAscii c := by simp [fold, hc]
    exact .inl ⟨rfl, hc'.symm.trans hfold⟩
  | false =>
    have hascii : isAscii (fold c) = true := by
      rw [hfold]
      exact isAscii_lowerAscii hk
    rcases eq_of_isAscii_fold hc hascii with rfl | rfl
    · exact .inr (.inl ⟨rfl, hfold.symm.trans fold_longS⟩)
    · exact .inr (.inr ⟨rfl, hfold.symm.trans fold_kelvin⟩)

/-! ## Words and blanks -/

lemma isAscii_of_isNameChar (h : isNameChar c = true) : isAscii c = true := by
  simp only [isNameChar, isLetter, isDigit, Bool.or_eq_true, Bool.and_eq_true, decide_eq_true_eq,
    beq_iff_eq, Char.le_def, UInt32.le_iff_toNat_le] at h
  simp only [isAscii, decide_eq_true_eq, Char.toNat]
  rcases h with ((⟨-, h⟩ | ⟨-, h⟩) | ⟨-, h⟩) | rfl
  · exact Nat.lt_of_le_of_lt h (by decide)
  · exact Nat.lt_of_le_of_lt h (by decide)
  · exact Nat.lt_of_le_of_lt h (by decide)
  · decide

lemma isNameChar_lowerAscii (hc : isAscii c = true) : isNameChar (lowerAscii c) = isNameChar c :=
  forall_of_isAscii (P := fun c => isNameChar (lowerAscii c) = isNameChar c) (by decide) hc

lemma isWordChar_longS : isWordChar longS = true := by
  decide +kernel

lemma isWordChar_kelvin : isWordChar kelvin = true := by
  decide +kernel

/-- What equals a character of a name up to case is a word character, and nothing else that
equals an ASCII character up to case is. -/
lemma isWordChar_of_sameFold {k : Char} (hk : isAscii k = true) (h : sameFold k c = true) :
    isWordChar c = isNameChar k := by
  rcases sameFold_cases hk h with ⟨hc, hlower⟩ | ⟨rfl, hlower⟩ | ⟨rfl, hlower⟩
  · rw [isWordChar_of_isAscii hc, ← isNameChar_lowerAscii hc, hlower, isNameChar_lowerAscii hk]
  · rw [isWordChar_longS, ← isNameChar_lowerAscii hk, hlower]
    rfl
  · rw [isWordChar_kelvin, ← isNameChar_lowerAscii hk, hlower]
    rfl

/-- The blanks. -/
def blankCodes : List Nat :=
  [9, 10, 11, 12, 13, 32, 0x85, 0xA0, 0x1680, 0x2000, 0x2001, 0x2002, 0x2003, 0x2004, 0x2005,
    0x2006, 0x2007, 0x2008, 0x2009, 0x200A, 0x2028, 0x2029, 0x202F, 0x205F, 0x3000]

lemma toNat_mem_blankCodes (h : isBlank c = true) : c.toNat ∈ blankCodes := by
  simp only [isBlank, Bool.or_eq_true, Bool.and_eq_true, decide_eq_true_eq, beq_iff_eq] at h
  simp only [blankCodes, List.mem_cons, List.not_mem_nil, or_false]
  omega

lemma isWordChar_ofNat_blankCodes : ∀ n ∈ blankCodes, isWordChar (Char.ofNat n) = false := by
  decide +kernel

lemma isWordChar_of_isBlank (h : isBlank c = true) : isWordChar c = false := by
  have hword := isWordChar_ofNat_blankCodes c.toNat (toNat_mem_blankCodes h)
  rwa [Char.ofNat_toNat] at hword

lemma isBlank_of_isWordChar (h : isWordChar c = true) : isBlank c = false := by
  by_contra hblank
  rw [Bool.not_eq_false] at hblank
  simp [isWordChar_of_isBlank hblank] at h

end KrlWorkbench.Text
