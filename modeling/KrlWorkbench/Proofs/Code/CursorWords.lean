import KrlWorkbench.Code.CursorWord
import KrlWorkbench.Proofs.Code.Tokens
import KrlWorkbench.Proofs.Renaming.Links
import KrlWorkbench.Proofs.Text.Positions

/-!
# Words under the cursor

What the checks find in the cleaned line, the cursor meets in the line itself.  A whole word of the
cleaned code stands at the same bytes of the line, outside strings and comments, and there too no
character of a name touches it (`Code.exists_around_of_clean`).  From any column in such a word the
cursor is on the whole of it (`CursorWord.exists_at?_of_name`).  The identifiers that the checks
list are such words, so the cursor and the checks agree about them (`CursorWord.at?_of_token`).
-/

namespace KrlWorkbench

open List Text

variable {before behind lead line u v w : Text} {c : Char}

/-- Two texts with a name between them that neither of them lengthens. -/
structure Code.IsAround (lead rest : Text) : Prop where
  start : lead.getLast?.any isNameChar = false
  stop : rest.head?.any isNameChar = false

namespace Code

lemma isWordChar_of_isNameChar (h : isNameChar c = true) : isWordChar c = true := by
  rw [isWordChar_of_isAscii (isAscii_of_isNameChar h), h]

lemma quote_notMem_of_isIdentifier (h : isIdentifier w = true) : '"' ∉ w := by
  intro hmem
  have hchar := isNameChar_of_isIdentifier h _ hmem
  revert hchar
  decide

/-- A word of the cleaned line stands in the line, at the same place. -/
lemma exists_word_of_clean (h : clean line = before ++ (w ++ behind)) (hw : IsWord w) :
    ∃ lead rest, line = lead ++ (w ++ rest) ∧ byteLength lead = byteLength before := by
  have hplaced : Placed 0 (clean line) [⟨byteLength before, w⟩] := by
    rw [h]
    exact @Placed.cons 0 before behind ⟨_, w⟩ [] (Nat.zero_add _).symm (.nil _ _)
  have hsolid : ∀ c ∈ w, c ≠ ' ' := fun c hc => ne_of_isWordChar (by decide) (hw.chars c hc)
  obtain ⟨lead, rest, hline, hlead⟩ :=
    (hplaced.of_clean (by simpa using hsolid)).exists_append_of_mem mem_cons_self
  exact ⟨lead, rest, hline, by simpa using hlead.symm⟩

/-- **A whole word of the cleaned line is a whole word of the line**, in its code and outside its
strings. -/
lemma exists_around_of_clean
    (h : clean line = before ++ (w ++ behind)) (hname : isIdentifier w = true)
    (hbefore : endsWord before = false) (hbehind : startsWord behind = false) :
    ∃ lead rest, line = lead ++ (w ++ rest) ∧ byteLength lead = byteLength before ∧
      byteLength (lead ++ w) ≤ byteLength (codePart line) ∧ insideAfter false lead = false ∧
      IsAround lead rest := by
  have hw := isNameChar_of_isIdentifier hname
  obtain ⟨comment, hline, hcomment⟩ := exists_comment false line
  obtain ⟨lead, tail, hcode, hlead, htail⟩ := exists_append_of_maskFrom_eq h
  obtain ⟨w', rest, rfl, hmask, hrest⟩ := exists_append_of_maskFrom_eq htail
  have hsolid : ∀ c ∈ w, isAscii c = true ∧ c ≠ ' ' := fun c hc =>
    ⟨isAscii_of_isNameChar (hw c hc),
      ne_of_isWordChar (by decide) (isWordChar_of_isNameChar (hw c hc))⟩
  obtain rfl : w = w' := by
    rw [← hmask]
    refine maskFrom_eq_self ?_
    rw [hmask]
    exact fun c hc => (hsolid c hc).2
  have hinside : insideAfter false lead = false :=
    inside_eq_false_of_maskFrom (ne_nil_of_isIdentifier hname) (by rw [hmask]; exact hsolid)
  rw [hinside, insideAfter_of_not_mem (quote_notMem_of_isIdentifier hname)] at hrest
  refine ⟨lead, rest ++ comment, ?_, ?_, ?_, hinside, ?_, ?_⟩
  · rw [← hline, ← codePart, hcode]
    simp
  · rw [← hlead, byteLength_maskFrom]
  · rw [hcode, ← append_assoc]
    exact byteLength_le_of_isPrefix (prefix_append _ _)
  · -- A character of a name in front of the word would be left by masking.
    cases hlast : lead.getLast? with
    | none => rfl
    | some d =>
      rw [Option.any_some, Bool.eq_false_iff]
      intro hd
      have hword := isWordChar_of_isNameChar hd
      have hkept := getLast?_maskFrom hlast (ne_of_isWordChar (by decide) hword) hinside
      rw [hlead] at hkept
      rw [endsWord, hkept, Option.any_some, hword] at hbefore
      cases hbefore
  · cases rest with
    | nil => rcases hcomment with rfl | ⟨_, rfl⟩ <;> rfl
    | cons d rest =>
      rw [cons_append, head?_cons, Option.any_some, Bool.eq_false_iff]
      intro hd
      have hword := isWordChar_of_isNameChar hd
      have hquote : d ≠ '"' := ne_of_isWordChar (by decide) hword
      rw [maskFrom, if_neg (by simpa using hquote)] at hrest
      rw [← hrest, startsWord_cons] at hbehind
      simp [hword] at hbehind

/-- Inside a word of code the cursor is in no string. -/
lemma inString_of_name (hlead : insideAfter false lead = false)
    (hname : isIdentifier (u ++ v) = true) (rest : Text) :
    inString (lead ++ (u ++ v ++ rest)) (byteLength (lead ++ u)) = false := by
  have hquote : '"' ∉ u := fun hmem =>
    quote_notMem_of_isIdentifier hname (mem_append_left _ hmem)
  have hsplit : lead ++ (u ++ v ++ rest) = (lead ++ u) ++ (v ++ rest) := by simp
  rw [hsplit, inString_eq, insideAfter_append, hlead, insideAfter_of_not_mem hquote]

end Code

namespace CursorWord

lemma takeWhile_append_of_head {p : Char → Bool} {a b : Text} (ha : ∀ c ∈ a, p c = true)
    (hb : b.head?.any p = false) : (a ++ b).takeWhile p = a ∧ (a ++ b).dropWhile p = b := by
  rw [takeWhile_append_of_pos ha, dropWhile_append_of_pos ha]
  cases b with
  | nil => simp
  | cons c b =>
    have hc : p c = false := hb
    simp [hc]

lemma isDigit_of_isNameStart (h : isNameStart c = true) : isDigit c = false := by
  have hname : isIdentifier [c] = true := by simp [isIdentifier, h]
  have hchar := isNameChar_of_isIdentifier hname c mem_cons_self
  exact forall_of_isAscii (P := fun c => isNameStart c = true → isDigit c = false) (by decide)
    (isAscii_of_isNameChar hchar) h

/-- The word that a name is found as: a dollar sign in front of the name belongs to it, and a point
in front of the word makes it a member. -/
lemma exists_between_eq_some (before : Text) {sign name : Text}
    (hsign : sign = ['$'] ∨ sign = [] ∧ before.head? ≠ some '$')
    (hname : isIdentifier name = true) :
    ∃ word, between (sign ++ before) name = some word ∧ word.text = sign ++ name ∧
      word.start = byteLength before ∧ word.stop = byteLength before + byteLength (sign ++ name) ∧
      (word.isMember = true ↔ before.head? = some '.') := by
  cases name with
  | nil => simp [isIdentifier] at hname
  | cons c name =>
    have hstart : isNameStart c = true := (Bool.and_eq_true_iff.mp hname).1
    have hdigit : ¬isDigit c = true := by
      rw [Bool.not_eq_true]
      exact isDigit_of_isNameStart hstart
    unfold between
    dsimp only
    rw [if_neg hdigit, head?_eq_some_iff]
    refine ⟨_, rfl, ?_⟩
    -- The dollar sign is taken where it stands, and nothing else is.
    rcases hsign with rfl | ⟨rfl, hdollar⟩
    · simp only [singleton_append, true_and]
      split
      case h_1 rest => exact iff_of_true rfl ⟨rest, rfl⟩
      case h_2 hpoint => exact iff_of_false Bool.false_ne_true (not_exists.mpr hpoint)
    · rw [nil_append]
      split
      case h_1 => exact absurd rfl hdollar
      case h_2 =>
        refine ⟨rfl, rfl, rfl, ?_⟩
        split
        case h_1 rest hrest => exact iff_of_true rfl ⟨_, hrest⟩
        case h_2 hpoint => exact iff_of_false Bool.false_ne_true (not_exists.mpr hpoint)

/-- From any column in a whole name the cursor is on what that name is found as. -/
lemma at?_of_name {rest : Text} (h : Code.IsAround lead rest)
    (hname : isIdentifier (u ++ v) = true) :
    at? (lead ++ (u ++ v ++ rest)) (byteLength (lead ++ u)) = between lead.reverse (u ++ v) := by
  have hchars := isNameChar_of_isIdentifier hname
  have hsplit : lead ++ (u ++ v ++ rest) = (lead ++ u) ++ (v ++ rest) := by simp
  obtain ⟨hleft, hbefore⟩ : (u.reverse ++ lead.reverse).takeWhile isNameChar = u.reverse ∧
      (u.reverse ++ lead.reverse).dropWhile isNameChar = lead.reverse := by
    refine takeWhile_append_of_head (fun c hc => hchars c ?_) ?_
    · exact mem_append_left _ (mem_reverse.mp hc)
    · rw [head?_reverse]
      exact h.start
  obtain ⟨hright, -⟩ := takeWhile_append_of_head
    (fun c hc => hchars c (mem_append_right _ hc)) h.stop
  rw [at?, hsplit, Nat.min_eq_left (by simp), isBoundary_append, if_pos rfl, takeBytes_append,
    dropBytes_append, reverse_append]
  dsimp only
  rw [hleft, hbefore, hright]
  split
  case h_1 hu =>
    rw [reverse_eq_nil_iff.mp hu] at hname
    cases hname
  case h_2 => rw [reverse_reverse]

/-- **The cursor is on the whole word**, from whichever column in it. -/
lemma exists_at?_of_name {rest : Text} (h : Code.IsAround lead rest)
    (hdollar : lead.getLast? ≠ some '$') (hname : isIdentifier (u ++ v) = true) :
    ∃ word, at? (lead ++ (u ++ v ++ rest)) (byteLength (lead ++ u)) = some word ∧
      word.text = u ++ v := by
  rw [← head?_reverse] at hdollar
  obtain ⟨word, hword, htext, -⟩ := exists_between_eq_some _ (.inr ⟨rfl, hdollar⟩) hname
  exact ⟨word, (at?_of_name h hname).trans hword, htext⟩

end CursorWord

/-! ## Identifiers under the cursor -/

variable {code : Text} {t : Token}

/-- An identifier of a piece of code is a whole name there. -/
lemma Token.exists_around_of_mem_tokens (h : t ∈ tokens code) :
    ∃ lead rest, code = lead ++ (t.text ++ rest) ∧ t.start = byteLength lead ∧
      t.stop = byteLength (lead ++ t.text) ∧ Code.IsAround lead rest := by
  refine scan_rec (P := fun before rest found => before.head?.any isNameChar = false ∨
      rest.head?.any isNameChar = false → ∀ t ∈ found, ∃ lead tail,
        before.reverse ++ rest = lead ++ (t.text ++ tail) ∧ t.start = byteLength lead ∧
          t.stop = byteLength (lead ++ t.text) ∧ Code.IsAround lead tail)
    (by simp) ?_ ?_ [] code (.inl rfl) t h
  · intro before name rest found hname hstop ih hjoint
    -- The name is not the rest of a longer one, since it would go on behind `before`.
    have hbefore : before.head?.any isNameChar = false := by
      refine hjoint.resolve_right ?_
      obtain ⟨c, name, rfl⟩ := exists_cons_of_ne_nil (ne_nil_of_isIdentifier hname)
      simp [isNameChar_of_isIdentifier hname c mem_cons_self]
    refine forall_mem_cons.mpr ⟨⟨before.reverse, rest, rfl, by simp, by simp, ?_, hstop⟩, ?_⟩
    · rwa [getLast?_reverse]
    · simpa using ih (.inr hstop)
  · intro before skipped rest found hjoint ih _
    simpa using ih hjoint

/-- **The cursor meets the identifiers.**  The identifiers of a piece of code stand in it one behind
the other, and each is a whole name.  From every column of one, its two ends among them, the cursor
is on a word that ends with it and begins with it, or with the dollar sign in front of it; and the
word is a member exactly if a point stands in front of it. -/
theorem CursorWord.at?_of_token (code : Text) :
    ((Token.tokens code).Pairwise fun t t' => t.stop ≤ t'.start) ∧
    ∀ t ∈ Token.tokens code,
      slice t.start t.stop code = t.text ∧ isIdentifier t.text = true ∧
      Code.IsAround (takeBytes t.start code) (dropBytes t.stop code) ∧
      ∀ column, t.start ≤ column → column ≤ t.stop →
        ∃ word, at? code column = some word ∧ word.stop = t.stop ∧
          word.start = (if (takeBytes t.start code).getLast? = some '$' then t.start - 1
            else t.start) ∧
          (word.isMember = true ↔ (takeBytes word.start code).getLast? = some '.') := by
  refine ⟨?_, fun t ht => ?_⟩
  · refine (pairwise_map.mp (Token.placed_tokens code).pairwise_stop_le).imp_of_mem ?_
    intro t t' ht _ hle
    rwa [(Token.stop_eq_and_isIdentifier_of_mem_scan ht).1]
  have hname := (Token.stop_eq_and_isIdentifier_of_mem_scan ht).2
  obtain ⟨lead, rest, rfl, hstart, hstop, haround⟩ := Token.exists_around_of_mem_tokens ht
  have htake : takeBytes t.start (lead ++ (t.text ++ rest)) = lead := by
    rw [hstart, takeBytes_append]
  have hdrop : dropBytes t.stop (lead ++ (t.text ++ rest)) = rest := by
    rw [hstop, ← append_assoc, dropBytes_append]
  have hslice : slice t.start t.stop (lead ++ (t.text ++ rest)) = t.text := by
    rw [slice, hstop, hstart, dropBytes_append, byteLength_append, Nat.add_sub_cancel_left,
      takeBytes_append]
  refine ⟨hslice, hname, by rwa [htake, hdrop], fun column hle hge => ?_⟩
  -- A name is ASCII, so every column in it falls between two of its letters.
  have hascii : ∀ c ∈ t.text, isAscii c = true := fun c hc =>
    isAscii_of_isNameChar (isNameChar_of_isIdentifier hname c hc)
  have hwithin : column - t.start ≤ byteLength t.text := by
    rw [hstop, byteLength_append] at hge
    omega
  obtain ⟨u, v, htext, hu⟩ := exists_append_of_isAscii hascii hwithin
  have hcolumn : column = byteLength (lead ++ u) := by
    rw [byteLength_append]
    omega
  rw [htake]
  rw [htext] at hname hstop ⊢
  rw [hcolumn, at?_of_name haround hname]
  split
  case isTrue hdollar =>
    obtain ⟨front, rfl⟩ := getLast?_eq_some_iff.mp hdollar
    obtain ⟨word, hword, -, hfirst, hlast, hmember⟩ :=
      exists_between_eq_some front.reverse (.inl rfl) hname
    refine ⟨word, by simpa using hword, ?_, ?_, by simpa [hfirst] using hmember⟩
    · rw [hlast, hstop, byteLength_reverse, append_assoc, ← byteLength_append]
    · rw [hfirst, hstart, byteLength_reverse, byteLength_append]
      rfl
  case isFalse hdollar =>
    rw [← head?_reverse] at hdollar
    obtain ⟨word, hword, -, hfirst, hlast, hmember⟩ :=
      exists_between_eq_some _ (.inr ⟨rfl, hdollar⟩) hname
    refine ⟨word, hword, by simp [hlast, hstop], by simp [hfirst, hstart], ?_⟩
    simpa [hfirst] using hmember

end KrlWorkbench
