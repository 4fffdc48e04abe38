import KrlWorkbench.Number
import KrlWorkbench.Proofs.Text.Lines
import KrlWorkbench.Proofs.Text.Trim

/-!
# Cutting and measuring ignore case

Every way to cut a text into pieces looks at breaks, blanks, brackets and other characters that are
no letters, and a letter takes the same space in both cases.  So each cut commutes with `upper`,
each measure is unchanged by it, and the two forms of a text have the same positions.
-/

namespace KrlWorkbench.Text

open List

variable {d : Char} {a : Text} {p : Char → Bool}

/-! ## Characters -/

lemma units_upperChar (c : Char) : units (upperChar c) = units c :=
  apply_upperChar units (by decide) c

lemma bne_upperChar (hd : isLetter d = false) (c : Char) : (upperChar c != d) = (c != d) := by
  rw [bne, bne, beq_upperChar hd]

lemma head?_upper_eq_some_iff (hd : isLetter d = false) :
    (upper a).head? = some d ↔ a.head? = some d := by
  cases a with
  | nil => simp
  | cons c rest => simpa using upperChar_eq_iff hd

lemma head?_upper_beq (hd : isLetter d = false) (a : Text) :
    ((upper a).head? == some d) = (a.head? == some d) := by
  rw [Bool.eq_iff_iff, beq_iff_eq, beq_iff_eq, head?_upper_eq_some_iff hd]

lemma count_upper (hd : isLetter d = false) (a : Text) : (upper a).count d = a.count d := by
  induction a with
  | nil => rfl
  | cons c rest ih => rw [upper_cons, count_cons, count_cons, ih, beq_upperChar hd]

lemma contains_upper (hd : isLetter d = false) (a : Text) :
    (upper a).contains d = a.contains d := by
  have hmem : d ∈ upper a ↔ d ∈ a := by
    rw [← count_pos_iff, count_upper hd, count_pos_iff]
  rw [Bool.eq_iff_iff, contains_iff_mem, contains_iff_mem, hmem]

lemma all_upper (h : ∀ c, p (upperChar c) = p c) (a : Text) :
    (upper a).all p = a.all p := by
  rw [upper, all_map]
  congr 1
  exact funext h

lemma isEmpty_upper (a : Text) : (upper a).isEmpty = a.isEmpty := by
  cases a <;> rfl

lemma isIdentifier_upper (a : Text) : isIdentifier (upper a) = isIdentifier a := by
  cases a with
  | nil => rfl
  | cons c rest =>
    rw [upper_cons, isIdentifier, isIdentifier, isNameStart_upperChar,
      all_upper isNameChar_upperChar]

lemma sameName_upper_left (a b : Text) : sameName (upper a) b = sameName a b := by
  rw [sameName, sameName, upper_upper]

lemma sameName_upper_right (a b : Text) : sameName a (upper b) = sameName a b := by
  rw [sameName, sameName, upper_upper]

/-! ## Cuts -/

lemma takeBytes_upper (n : Nat) (a : Text) : takeBytes n (upper a) = upper (takeBytes n a) := by
  induction a generalizing n with
  | nil => rfl
  | cons c rest ih =>
    rw [upper_cons, takeBytes, takeBytes, utf8Size_upperChar]
    split
    · rw [ih, upper_cons]
    · rfl

lemma dropBytes_upper (n : Nat) (a : Text) : dropBytes n (upper a) = upper (dropBytes n a) := by
  induction a generalizing n with
  | nil => rfl
  | cons c rest ih =>
    rw [upper_cons, dropBytes, dropBytes, utf8Size_upperChar]
    split
    · exact ih _
    · rfl

lemma allBlank_upper (a : Text) : allBlank (upper a) = allBlank a :=
  all_upper isBlank_upperChar a

lemma indentBytes_upper (a : Text) : indentBytes (upper a) = indentBytes a := by
  rw [indentBytes, takeWhile_upper isBlank_upperChar, byteLength_upper, indentBytes]

lemma splitOn_upper (h : ∀ c, p (upperChar c) = p c) (a : Text) :
    splitOn p (upper a) = (splitOn p a).map upper := by
  induction a with
  | nil => rfl
  | cons c rest ih =>
    rw [upper_cons, splitOn, splitOn, ih, h]
    cases splitOn p rest with
    | nil => rfl
    | cons piece pieces =>
      cases p c <;> rfl

lemma blankSeparated_upper (a : Text) :
    blankSeparated (upper a) = (blankSeparated a).map upper := by
  rw [blankSeparated, splitOn_upper isBlank_upperChar, filter_map]
  simp only [Function.comp_def, isEmpty_upper, blankSeparated]

/-! ## Lines and positions -/

lemma consLine_upper (c : Char) (ls : List Text) :
    consLine (upperChar c) (ls.map upper) = (consLine c ls).map upper := by
  cases ls <;> rfl

lemma lines_upper (text : Text) : (upper text).lines = text.lines.map upper := by
  have hfeed : upperChar '\n' = '\n' := by decide
  have hreturn : upperChar '\r' = '\r' := by decide
  fun_induction lines text with
  | case1 => rfl
  | case2 rest ih => rw [upper_cons, hfeed, lines, ih]; rfl
  | case3 rest ih => rw [upper_cons, upper_cons, hfeed, hreturn, lines, ih]; rfl
  | case4 rest hlf ih =>
    have hbrk : IsBreak ['\r'] (upper rest) := by
      refine .inr (.inr ⟨rfl, fun h => ?_⟩)
      obtain ⟨tail, rfl⟩ := head?_eq_some_iff.mp ((head?_upper_eq_some_iff (by decide)).mp h)
      exact hlf tail rfl
    exact (lines_break hbrk).trans (by rw [ih]; rfl)
  | case5 c rest hlf _ hcr ih =>
    have hc : upperChar c ≠ '\n' ∧ upperChar c ≠ '\r' :=
      ⟨fun h => hlf ((upperChar_eq_iff (by decide)).mp h),
        fun h => hcr ((upperChar_eq_iff (by decide)).mp h)⟩
    rw [upper_cons, lines_cons hc, ih, consLine_upper]

lemma endsLine_upper (c : Char) (rest : Text) :
    endsLine (upperChar c) (upper rest) = endsLine c rest := by
  rw [endsLine, endsLine, beq_upperChar (by decide), beq_upperChar (by decide), bne, bne,
    head?_upper_beq (by decide)]

lemma lineStart_upper (n : Nat) (text : Text) : lineStart n (upper text) = lineStart n text := by
  induction text generalizing n with
  | nil => rfl
  | cons c rest ih =>
    cases n with
    | zero => rfl
    | succ n => rw [upper_cons, lineStart, lineStart, endsLine_upper, ih, utf8Size_upperChar]

lemma advance_upper (here : Position) (n : Nat) (text : Text) :
    advance here n (upper text) = advance here n text := by
  induction text generalizing here n with
  | nil => rfl
  | cons c rest ih =>
    rw [upper_cons, advance, advance, endsLine_upper, utf8Size_upperChar, units_upperChar]
    simp only [ih]

lemma span_upper (text : Text) (line column length : Nat) :
    (upper text).span line column length = text.span line column length := by
  simp only [span, positionAt, lineStart_upper, advance_upper, byteLength_upper]

end KrlWorkbench.Text

namespace KrlWorkbench.Number

open List Text

variable {a : Text}

/-! ## Numbers -/

lemma upper_eq_self_of_isDigit (h : ∀ c ∈ a, isDigit c = true) : upper a = a := by
  have hsmall : ∀ d ∈ smallLetters, isDigit d = false := by decide
  have hfix : a.map upperChar = a.map id := by
    refine map_congr_left fun c hc => ?_
    rcases upperChar_eq_self_or_mem c with hself | hmem
    · exact hself
    · exact absurd (h c hc) (by simp [hsmall c hmem])
  rw [upper, hfix, map_id]

lemma takeWhile_isDigit_upper (a : Text) : (upper a).takeWhile isDigit = a.takeWhile isDigit := by
  rw [takeWhile_upper isDigit_upperChar]
  exact upper_eq_self_of_isDigit fun c hc => mem_takeWhile_imp hc

/-- Whether a number is negative, and what follows its sign. -/
def signOf : Text → Bool × Text
  | '-' :: digits => (true, digits)
  | '+' :: digits => (false, digits)
  | digits => (false, digits)

/-- The digits behind a decimal point, and what follows them. -/
def fractionOf : Text → Text × Text
  | '.' :: rest => (rest.takeWhile isDigit, rest.dropWhile isDigit)
  | rest => ([], rest)

lemma exists_of_upper_eq_cons {d : Char} (hd : isLetter d = false) {rest : Text}
    (h : upper a = d :: rest) : ∃ tail, a = d :: tail := by
  have hhead : a.head? = some d := (head?_upper_eq_some_iff hd).mp (by rw [h, head?_cons])
  exact head?_eq_some_iff.mp hhead

lemma signOf_upper (a : Text) : signOf (upper a) = ((signOf a).1, upper (signOf a).2) := by
  have hminus : upperChar '-' = '-' := by decide
  have hplus : upperChar '+' = '+' := by decide
  fun_cases signOf a with
  | case1 digits => rw [upper_cons, hminus, signOf]
  | case2 digits => rw [upper_cons, hplus, signOf]
  | case3 _ hm hp =>
    rw [signOf]
    · intro digits h
      obtain ⟨tail, rfl⟩ := exists_of_upper_eq_cons (by decide) h
      exact hm tail rfl
    · intro digits h
      obtain ⟨tail, rfl⟩ := exists_of_upper_eq_cons (by decide) h
      exact hp tail rfl

lemma fractionOf_upper (a : Text) :
    fractionOf (upper a) = ((fractionOf a).1, upper (fractionOf a).2) := by
  have hpoint : upperChar '.' = '.' := by decide
  fun_cases fractionOf a with
  | case1 rest =>
    rw [upper_cons, hpoint, fractionOf, takeWhile_isDigit_upper, dropWhile_upper isDigit_upperChar]
  | case2 _ hp =>
    rw [fractionOf]
    intro rest h
    obtain ⟨tail, rfl⟩ := exists_of_upper_eq_cons (by decide) h
    exact hp tail rfl

lemma exponent?_cons (c : Char) (rest : Text) :
    exponent? (c :: rest) =
      if c == 'e' || c == 'E' then
        if (signOf rest).2.isEmpty || !(signOf rest).2.all isDigit then none
        else some (if (signOf rest).1 then -(digitsValue 0 (signOf rest).2 : Int)
          else digitsValue 0 (signOf rest).2) else none :=
  rfl

lemma magnitude?_eq (a : Text) :
    magnitude? a =
      if upper a == "INF".toList || upper a == "INFINITY".toList then some (1.0 / 0.0)
      else if upper a == "NAN".toList then some (0.0 / 0.0)
      else if (a.takeWhile isDigit).isEmpty &&
          (fractionOf (a.dropWhile isDigit)).1.isEmpty then none
      else (exponent? (fractionOf (a.dropWhile isDigit)).2).map fun e =>
        ofDecimal
          (digitsValue (digitsValue 0 (a.takeWhile isDigit)) (fractionOf (a.dropWhile isDigit)).1)
          (e - (fractionOf (a.dropWhile isDigit)).1.length) :=
  rfl

lemma read?_eq (a : Text) :
    read? a =
      if (signOf a).1 then (magnitude? (signOf a).2).map (- ·) else magnitude? (signOf a).2 := by
  fun_cases signOf a with
  | case1 => rfl
  | case2 => rfl
  | case3 _ hm hp => rw [read?, if_neg Bool.false_ne_true] <;> assumption

lemma digitsValue_upper {start : Nat} {digits : Text} (h : digits.all isDigit = true) :
    digitsValue start (upper digits) = digitsValue start digits := by
  rw [upper_eq_self_of_isDigit (all_eq_true.mp h)]

lemma exponentMark_upperChar (c : Char) :
    (upperChar c == 'e' || upperChar c == 'E') = (c == 'e' || c == 'E') :=
  apply_upperChar (fun c => c == 'e' || c == 'E') (by decide) c

lemma exponent?_upper (a : Text) : exponent? (upper a) = exponent? a := by
  cases a with
  | nil => rfl
  | cons c rest =>
    rw [upper_cons, exponent?_cons, exponent?_cons, exponentMark_upperChar, signOf_upper]
    simp only [isEmpty_upper, all_upper isDigit_upperChar]
    -- The value is only read from digits.
    cases hdigits : (signOf rest).2.all isDigit with
    | false => simp
    | true => rw [digitsValue_upper hdigits]

lemma magnitude?_upper (a : Text) : magnitude? (upper a) = magnitude? a := by
  rw [magnitude?_eq, magnitude?_eq a, upper_upper, takeWhile_isDigit_upper,
    dropWhile_upper isDigit_upperChar, fractionOf_upper, exponent?_upper]

lemma read?_upper (a : Text) : read? (upper a) = read? a := by
  rw [read?_eq, read?_eq a, signOf_upper, magnitude?_upper]

end KrlWorkbench.Number
