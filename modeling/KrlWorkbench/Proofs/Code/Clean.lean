import KrlWorkbench.Code.Line
import KrlWorkbench.Proofs.Text.LetterCase
import KrlWorkbench.Proofs.Text.Pieces

/-!
# The code of a line

The code of a line is a piece of its front, and blanking out the strings changes no byte offset.
A piece of the cleaned line without spaces is therefore a piece of the line itself, at the same
place (`Placed.of_clean`), which is how findings and edits get from the cleaned line to the
document.
-/

namespace KrlWorkbench.Code

open List Text

variable {a : Text} {c : Char} {inside : Bool}

/-! ## Strings -/

/-- Whether a string is open behind `a`, when `inside` tells whether one is open before it. -/
def insideAfter : Bool → Text → Bool
  | inside, [] => inside
  | inside, c :: rest => insideAfter (if c == '"' then !inside else inside) rest

@[simp] lemma insideAfter_nil (inside : Bool) : insideAfter inside [] = inside := rfl

lemma insideAfter_cons (inside : Bool) (c : Char) (rest : Text) :
    insideAfter inside (c :: rest) = insideAfter (if c == '"' then !inside else inside) rest := rfl

lemma insideAfter_append (inside : Bool) (a b : Text) :
    insideAfter inside (a ++ b) = insideAfter (insideAfter inside a) b := by
  induction a generalizing inside with
  | nil => rfl
  | cons c a ih => rw [cons_append, insideAfter_cons, insideAfter_cons, ih]

/-- A string is open where the number of quotes before is odd. -/
lemma insideAfter_eq (inside : Bool) (a : Text) :
    insideAfter inside a = (inside != (a.count '"' % 2 == 1)) := by
  induction a generalizing inside with
  | nil => cases inside <;> rfl
  | cons c a ih =>
    rw [insideAfter_cons, ih, count_cons]
    by_cases hc : c = '"'
    · have hflip : ((a.count '"' + 1) % 2 == 1) = !(a.count '"' % 2 == 1) := by
        rcases Nat.mod_two_eq_zero_or_one (a.count '"') with h | h <;> simp [Nat.add_mod, h]
      simp only [hc, BEq.rfl, if_true, hflip]
      cases inside <;> simp
    · simp [hc]

lemma inString_eq (a rest : Text) : inString (a ++ rest) (byteLength a) = insideAfter false a := by
  rw [inString, takeBytes_append, insideAfter_eq]
  simp

lemma insideAfter_of_not_mem (h : '"' ∉ a) : insideAfter inside a = inside := by
  rw [insideAfter_eq, count_eq_zero_of_not_mem h]
  simp

lemma insideAfter_singleton (hc : c ≠ '"') : insideAfter inside [c] = inside :=
  insideAfter_of_not_mem (by simpa using hc.symm)

lemma insideAfter_eq_true (h : insideAfter inside a = true) : inside = true ∨ '"' ∈ a :=
  or_iff_not_imp_right.mpr fun ha => (insideAfter_of_not_mem ha).symm.trans h

/-! ## The part before the comment -/

lemma codeFrom_cons (inside : Bool) (c : Char) (rest : Text) :
    codeFrom inside (c :: rest) =
      if c = ';' ∧ inside = false then [] else c :: codeFrom (insideAfter inside [c]) rest := by
  rw [codeFrom, insideAfter_cons, insideAfter_nil]
  by_cases hc : c = '"'
  · simp [hc]
  · simp [hc]

/-- Behind the code stands nothing, or a comment. -/
lemma exists_comment (inside : Bool) (line : Text) : ∃ comment,
    codeFrom inside line ++ comment = line ∧ (comment = [] ∨ ∃ rest, comment = ';' :: rest) := by
  induction line generalizing inside with
  | nil => exact ⟨[], rfl, .inl rfl⟩
  | cons c rest ih =>
    rw [codeFrom_cons]
    split
    case isTrue hsemi => exact ⟨c :: rest, rfl, .inr ⟨rest, by rw [hsemi.1]⟩⟩
    case isFalse =>
      obtain ⟨comment, hrest, hcomment⟩ := ih (insideAfter inside [c])
      exact ⟨comment, by rw [cons_append, hrest], hcomment⟩

lemma codePart_isPrefix (line : Text) : codePart line <+: line := by
  obtain ⟨comment, hline, -⟩ := exists_comment false line
  exact ⟨comment, hline⟩

/-- A semicolon that opens a comment does so whatever the comment says. -/
lemma codeFrom_append_comment {code : Text} (h : codeFrom inside (code ++ [';']) = code)
    (comment : Text) : codeFrom inside (code ++ ';' :: comment) = code := by
  induction code generalizing inside with
  | nil =>
    cases inside with
    | false => rfl
    | true => simp [codeFrom] at h
  | cons c rest ih =>
    rw [cons_append, codeFrom_cons] at h ⊢
    split at h
    case isTrue => cases h
    case isFalse hkept => rw [if_neg hkept, ih (List.cons.inj h).2]

lemma codePart_append_comment {code : Text} (h : codePart (code ++ [';']) = code)
    (comment : Text) : codePart (code ++ ';' :: comment) = code :=
  codeFrom_append_comment h comment

lemma eq_of_commentStart {line : Text} {start : Nat} (h : commentStart line = some start) :
    start = byteLength (codePart line) := by
  rw [commentStart] at h
  split at h
  · exact (Option.some.inj h).symm
  · simp at h

/-! ## Masking -/

/-- What masking makes of a character, when `inside` tells whether a string is open. -/
def maskChar (inside : Bool) (c : Char) : Char :=
  if c == '"' then ' ' else if inside && isAscii c then ' ' else c

lemma maskFrom_cons (inside : Bool) (c : Char) (rest : Text) :
    maskFrom inside (c :: rest) = maskChar inside c :: maskFrom (insideAfter inside [c]) rest := by
  rw [maskFrom, maskChar, insideAfter_cons, insideAfter_nil]
  split <;> rfl

lemma maskChar_false (hc : c ≠ '"') : maskChar false c = c := by
  simp [maskChar, hc]

lemma maskChar_cases (inside : Bool) (c : Char) : maskChar inside c = ' ' ∧ isAscii c = true ∨
    maskChar inside c = c ∧ c ≠ '"' ∧ (inside = true → isAscii c = false) := by
  rw [maskChar]
  by_cases hc : c = '"'
  · exact .inl ⟨by simp [hc], by rw [hc]; decide⟩
  · cases inside <;> cases hascii : isAscii c <;> simp [hc]

/-- A character of code other than a space is left where it stands outside strings, and is written
nowhere else. -/
lemma maskChar_beq {d : Char} (hd : isAscii d = true) (hspace : d ≠ ' ') (hquote : d ≠ '"')
    (inside : Bool) (c : Char) : (maskChar inside c == d) = (c == d && !inside) := by
  rw [Bool.eq_iff_iff, Bool.and_eq_true, Bool.not_eq_true', beq_iff_eq, beq_iff_eq]
  constructor
  · rintro rfl
    rcases maskChar_cases inside c with ⟨hc, -⟩ | ⟨hc, -, hin⟩
    · exact absurd hc hspace
    · rw [hc] at hd
      refine ⟨hc.symm, Bool.eq_false_iff.mpr fun hinside => ?_⟩
      rw [hin hinside] at hd
      cases hd
  · rintro ⟨rfl, rfl⟩
    exact maskChar_false hquote

lemma insideAfter_maskChar (inside : Bool) (c : Char) :
    insideAfter false [maskChar inside c] = false := by
  rcases maskChar_cases inside c with ⟨hc, -⟩ | ⟨hc, hquote, -⟩ <;> rw [hc]
  · rfl
  · exact insideAfter_singleton hquote

/-- Masking writes nothing but spaces. -/
lemma forall_mem_maskFrom {p : Char → Prop} (hspace : p ' ') (ha : ∀ c ∈ a, c ≠ '"' → p c)
    (inside : Bool) : ∀ d ∈ maskFrom inside a, p d := by
  induction a generalizing inside with
  | nil => exact forall_mem_nil _
  | cons c a ih =>
    rw [maskFrom_cons, forall_mem_cons]
    refine ⟨?_, ih (forall_mem_cons.mp ha).2 _⟩
    rcases maskChar_cases inside c with ⟨hc, -⟩ | ⟨hc, hquote, -⟩ <;> rw [hc]
    · exact hspace
    · exact ha c mem_cons_self hquote

lemma maskFrom_append (inside : Bool) (a b : Text) :
    maskFrom inside (a ++ b) = maskFrom inside a ++ maskFrom (insideAfter inside a) b := by
  induction a generalizing inside with
  | nil => rfl
  | cons c rest ih =>
    rw [cons_append, maskFrom_cons, maskFrom_cons, ih]
    rfl

lemma maskFrom_false_of_not_mem (h : '"' ∉ a) : maskFrom false a = a := by
  induction a with
  | nil => rfl
  | cons c rest ih =>
    rw [mem_cons, not_or] at h
    rw [maskFrom_cons, maskChar_false (Ne.symm h.1), insideAfter_singleton (Ne.symm h.1), ih h.2]

@[simp] lemma length_maskFrom (inside : Bool) (a : Text) :
    (maskFrom inside a).length = a.length := by
  induction a generalizing inside with
  | nil => rfl
  | cons c rest ih => rw [maskFrom_cons, length_cons, ih, length_cons]

/-- A space takes one byte, as does what it replaces. -/
@[simp] lemma byteLength_maskFrom (inside : Bool) (a : Text) :
    byteLength (maskFrom inside a) = byteLength a := by
  induction a generalizing inside with
  | nil => rfl
  | cons c rest ih =>
    rw [maskFrom_cons, byteLength_cons, ih, byteLength_cons]
    rcases maskChar_cases inside c with ⟨hc, hascii⟩ | ⟨hc, -⟩ <;> rw [hc]
    rw [utf8Size_of_isAscii hascii]
    rfl

@[simp] lemma byteLength_mask (a : Text) : byteLength (mask a) = byteLength a :=
  byteLength_maskFrom false a

lemma byteLength_clean (line : Text) : byteLength (clean line) = byteLength (codePart line) :=
  byteLength_mask _

/-- What masking leaves without spaces it has left as it was. -/
lemma maskFrom_eq_self (h : ∀ c ∈ maskFrom inside a, c ≠ ' ') : maskFrom inside a = a := by
  induction a generalizing inside with
  | nil => rfl
  | cons c rest ih =>
    rw [maskFrom_cons, forall_mem_cons] at h
    rw [maskFrom_cons, ih h.2]
    rcases maskChar_cases inside c with ⟨hc, -⟩ | ⟨hc, -⟩
    · exact absurd hc h.1
    · rw [hc]

/-- Masking spares no ASCII character inside a string. -/
lemma inside_eq_false_of_maskFrom (hne : a ≠ [])
    (h : ∀ c ∈ maskFrom inside a, isAscii c = true ∧ c ≠ ' ') : inside = false := by
  obtain ⟨c, a, rfl⟩ := exists_cons_of_ne_nil hne
  rw [maskFrom_cons] at h
  obtain ⟨hascii, hspace⟩ := h _ mem_cons_self
  rcases maskChar_cases inside c with ⟨hc, -⟩ | ⟨hc, -, hin⟩
  · exact absurd hc hspace
  · rw [hc] at hascii
    exact Bool.eq_false_iff.mpr fun h => absurd hascii (by simp [hin h])

/-- Outside strings masking keeps the last character. -/
lemma getLast?_maskFrom {d : Char} (h : a.getLast? = some d) (hquote : d ≠ '"')
    (hinside : insideAfter inside a = false) : (maskFrom inside a).getLast? = some d := by
  obtain ⟨a, rfl⟩ := getLast?_eq_some_iff.mp h
  rw [insideAfter_append, insideAfter_singleton hquote] at hinside
  simp [maskFrom_append, maskFrom, hquote, hinside]

/-- A split of a masked text comes from a split of the text. -/
lemma exists_append_of_maskFrom_eq {text b : Text} (h : maskFrom inside text = a ++ b) :
    ∃ a' b', text = a' ++ b' ∧ maskFrom inside a' = a ∧
      maskFrom (insideAfter inside a') b' = b := by
  refine ⟨text.take a.length, text.drop a.length, (take_append_drop _ _).symm, ?_⟩
  have hlen : (text.take a.length).length = a.length := by
    have hle := congrArg List.length h
    simp only [length_maskFrom, length_append] at hle
    simp only [length_take]
    omega
  have hsplit : maskFrom inside (text.take a.length ++ text.drop a.length) = a ++ b := by
    rw [take_append_drop, h]
  rw [maskFrom_append] at hsplit
  exact List.append_inj hsplit (by rw [length_maskFrom, hlen])

/-- Where masking leaves no semicolon no comment begins. -/
lemma codeFrom_append (h : ';' ∉ maskFrom inside a) (b : Text) :
    codeFrom inside (a ++ b) = a ++ codeFrom (insideAfter inside a) b := by
  induction a generalizing inside with
  | nil => rfl
  | cons c a ih =>
    rw [maskFrom_cons, mem_cons, not_or] at h
    rw [cons_append, codeFrom_cons, if_neg, ih h.2]
    · rfl
    · rintro ⟨rfl, rfl⟩
      exact h.1 rfl

lemma codeFrom_append_of_notMem (hquote : '"' ∉ a) (hsemi : ';' ∉ a) (inside : Bool) (b : Text) :
    codeFrom inside (a ++ b) = a ++ codeFrom inside b := by
  have hmask := forall_mem_maskFrom (p := (· ≠ ';')) (by decide)
    (fun _ hc _ => ne_of_mem_of_not_mem hc hsemi) inside
  rw [codeFrom_append fun hmem => hmask _ hmem rfl, insideAfter_of_not_mem hquote]

lemma semicolon_notMem_clean (line : Text) : ';' ∉ clean line := by
  have hmask : ∀ inside, ';' ∉ maskFrom inside (codeFrom inside line) := by
    induction line with
    | nil => exact fun _ => not_mem_nil
    | cons c rest ih =>
      intro inside
      rw [codeFrom_cons]
      split
      case isTrue => exact not_mem_nil
      case isFalse hkept =>
        rw [maskFrom_cons, mem_cons, not_or]
        refine ⟨fun heq => ?_, ih _⟩
        rcases maskChar_cases inside c with ⟨hc, -⟩ | ⟨hc, -, hin⟩ <;> rw [hc] at heq
        · exact absurd heq (by decide)
        · subst heq
          exact hkept ⟨rfl, Bool.eq_false_iff.mpr fun h => absurd (hin h) (by decide)⟩
  exact hmask false

/-! ## Masking and case -/

lemma codeFrom_upper (inside : Bool) (line : Text) :
    codeFrom inside (upper line) = upper (codeFrom inside line) := by
  induction line generalizing inside with
  | nil => rfl
  | cons c rest ih =>
    have hquote : (upperChar c == '"') = (c == '"') := beq_upperChar (by decide) c
    have hsemi : (upperChar c == ';') = (c == ';') := beq_upperChar (by decide) c
    rw [upper_cons, codeFrom, codeFrom, hquote, hsemi]
    split
    · rw [ih, upper_cons]
    · split
      · rfl
      · rw [ih, upper_cons]

lemma codePart_upper (line : Text) : codePart (upper line) = upper (codePart line) :=
  codeFrom_upper false line

lemma maskFrom_upper (inside : Bool) (code : Text) :
    maskFrom inside (upper code) = upper (maskFrom inside code) := by
  induction code generalizing inside with
  | nil => rfl
  | cons c rest ih =>
    have hquote : (upperChar c == '"') = (c == '"') := beq_upperChar (by decide) c
    have hspace : upperChar ' ' = ' ' := by decide
    rw [upper_cons, maskFrom, maskFrom, hquote, isAscii_upperChar]
    split
    · rw [ih, upper_cons, hspace]
    · rw [ih, upper_cons]
      split
      · rw [hspace]
      · rfl

lemma clean_upper (line : Text) : clean (upper line) = upper (clean line) := by
  rw [clean, mask, codePart_upper, maskFrom_upper, clean, mask]

end KrlWorkbench.Code

namespace KrlWorkbench

/-! ## From the cleaned line to the line -/

namespace Placed

open List Text

variable {here : Nat} {pieces : List Capture}

lemma of_maskFrom {inside : Bool} {code : Text}
    (h : Placed here (Code.maskFrom inside code) pieces)
    (hsolid : ∀ p ∈ pieces, ∀ c ∈ p.text, c ≠ ' ') : Placed here code pieces := by
  generalize hmasked : Code.maskFrom inside code = masked at h
  induction h generalizing inside code with
  | nil => exact .nil _ _
  | @cons here gap rest piece pieces hstart _ ih =>
    obtain ⟨gap', tail, rfl, hgap, htail⟩ := Code.exists_append_of_maskFrom_eq hmasked
    obtain ⟨text', rest', rfl, htext, hrest⟩ := Code.exists_append_of_maskFrom_eq htail
    have hkept : piece.text = text' := by
      rw [← htext]
      refine Code.maskFrom_eq_self ?_
      rw [htext]
      exact hsolid piece mem_cons_self
    rw [← hkept]
    refine .cons ?_ (ih (forall_mem_cons.mp hsolid).2 hrest)
    rw [hstart, ← hgap, Code.byteLength_maskFrom]

/-- Pieces of a cleaned line that hold no space are pieces of the line. -/
lemma of_clean {line : Text} (h : Placed here (Code.clean line) pieces)
    (hsolid : ∀ p ∈ pieces, ∀ c ∈ p.text, c ≠ ' ') : Placed here line pieces := by
  obtain ⟨comment, hline⟩ := Code.codePart_isPrefix line
  rw [← hline]
  exact (of_maskFrom h hsolid).append_right comment

end Placed
end KrlWorkbench
