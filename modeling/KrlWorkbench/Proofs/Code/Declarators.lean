import KrlWorkbench.Proofs.Code.MaskedLists
import KrlWorkbench.Proofs.Scope.Depth

/-!
# Declarators

A declarator is what an item in a list of variables is written from: a name, an index in brackets or
none, and an initial value or none.  Index and value are texts that may stand in code
(`Text.IsCode`), with nested brackets (`Text.IsEnclosed`); strings count as blank in all of this.

Three readers go over the item that a declarator prints, and each keeps its own count of brackets
and strings: the split of the list, the split at the equals sign, and the one that takes the index
off the name.  They agree about it.  The item is whole, so the list is not split inside it
(`Declarator.isWhole_print`), and the name and the trimmed value are those of the declarator
(`Declarator.itemName_print`, `Declarator.value_print`).
-/

namespace KrlWorkbench

open List Code ScopeMark Text

variable {t a : Text}

/-! ## Trimming -/

namespace Text

lemma trimEnd_append_blanks {tail : Text} (htail : IsBlanks tail) (a : Text) :
    trimEnd (a ++ tail) = trimEnd a := by
  have hback : ∀ c ∈ tail.reverse, isBlank c = true := fun c hc => htail c (by simpa using hc)
  rw [trimEnd, trimEnd, dropEndWhile_eq_rdropWhile, dropEndWhile_eq_rdropWhile, List.rdropWhile,
    List.rdropWhile, reverse_append, dropWhile_append_of_pos hback]

lemma trim_append_blanks {tail : Text} (htail : IsBlanks tail) (a : Text) :
    trim (a ++ tail) = trim a := by
  rw [trim, trim, trimStart, trimStart, dropWhile_append]
  split
  case isTrue hempty =>
    have hstart : tail.dropWhile isBlank = [] := dropWhile_eq_nil_iff.mpr htail
    rw [hstart, List.isEmpty_iff.mp hempty]
  case isFalse => exact trimEnd_append_blanks htail _

lemma IsWord.trim_eq {w : Text} (hw : IsWord w) : trim w = w := by
  have hsolid : ∀ c ∈ w, isBlank c = false := fun c hc => isBlank_of_isWordChar (hw.chars c hc)
  have hstart : trimStart w = w := by
    obtain ⟨c, rest, rfl⟩ := exists_cons_of_ne_nil hw.1
    exact dropWhile_cons_of_neg (by simp [hsolid c])
  have hend := trimEnd_append_of_solid hsolid []
  rw [append_nil] at hend
  rw [trim, hstart, hend]
  exact append_nil w

/-! ## Texts in code -/

/-- The text may stand in a line of code: it breaks no line, leaves no string open and opens no
comment. -/
@[mk_iff] structure IsCode (t : Text) : Prop where
  noBreak : NoBreak t
  quotes : t.count '"' % 2 = 0
  semicolon : ';' ∉ mask t

instance (t : Text) : Decidable (IsCode t) :=
  decidable_of_iff _ (isCode_iff t).symm

lemma IsCode.insideAfter_eq (h : IsCode t) : insideAfter false t = false := by
  rw [Code.insideAfter_eq, h.quotes]
  rfl

lemma IsCode.mask_append (ha : IsCode a) (b : Text) : mask (a ++ b) = mask a ++ mask b := by
  rw [mask, maskFrom_append, ha.insideAfter_eq]
  rfl

lemma IsCode.append {b : Text} (ha : IsCode a) (hb : IsCode b) : IsCode (a ++ b) where
  noBreak := noBreak_append.mpr ⟨ha.noBreak, hb.noBreak⟩
  quotes := by rw [count_append, Nat.add_mod, ha.quotes, hb.quotes]
  semicolon := by
    rw [ha.mask_append, mem_append, not_or]
    exact ⟨ha.semicolon, hb.semicolon⟩

lemma isCode_of_forall (h : ∀ c ∈ t, c ≠ '"' ∧ c ≠ ';' ∧ c ≠ '\n' ∧ c ≠ '\r') : IsCode t := by
  have hquote : '"' ∉ t := fun hmem => (h _ hmem).1 rfl
  refine ⟨fun c hc => (h c hc).2.2, ?_, ?_⟩
  · rw [count_eq_zero_of_not_mem hquote]
  · rw [mask, maskFrom_false_of_not_mem hquote]
    exact fun hmem => (h _ hmem).2.1 rfl

lemma isCode_of_isBlank_or_isWordChar (h : ∀ c ∈ t, isBlank c = true ∨ isWordChar c = true)
    (hbreak : NoBreak t) : IsCode t := by
  refine isCode_of_forall fun c hc => ⟨?_, ?_, hbreak c hc⟩ <;> rintro rfl <;>
    exact absurd (h _ hc) (by decide)

lemma IsWord.isCode {w : Text} (hw : IsWord w) : IsCode w := by
  refine isCode_of_isBlank_or_isWordChar (fun c hc => .inr (hw.chars c hc)) fun c hc => ?_
  have hword := hw.chars c hc
  constructor <;> exact ne_of_isWordChar (by decide) hword

lemma IsCode.intercalate {sep : Text} {ps : List Text} (hsep : IsCode sep)
    (h : ∀ p ∈ ps, IsCode p) : IsCode (sep.intercalate ps) := by
  induction ps with
  | nil => exact isCode_of_forall (by simp)
  | cons p ps ih =>
    have hp := h p mem_cons_self
    cases ps with
    | nil => simpa using hp
    | cons q ps =>
      rw [intercalate_cons_cons]
      exact (hp.append hsep).append (ih (forall_mem_cons.mp h).2)

lemma IsCode.codePart_append (ha : IsCode a) (b : Text) : codePart (a ++ b) = a ++ codePart b := by
  have hline := codeFrom_append ha.semicolon b
  rwa [ha.insideAfter_eq] at hline

lemma IsCode.codePart_eq (h : IsCode t) : codePart t = t := by
  have hline := h.codePart_append []
  rwa [append_nil, show codePart [] = [] from rfl, append_nil] at hline

lemma IsCode.clean_append (ha : IsCode a) (b : Text) : clean (a ++ b) = mask a ++ clean b := by
  rw [clean, ha.codePart_append, ha.mask_append]
  rfl

lemma IsCode.clean_append_of_notMem (ha : IsCode a) (hquote : '"' ∉ a) (b : Text) :
    clean (a ++ b) = a ++ clean b := by
  rw [ha.clean_append, mask, maskFrom_false_of_not_mem hquote]

/-- Where the cleaned line has a character of code, the line has code in front of it. -/
lemma exists_isCode_of_clean {line : Text} {c : Char} (hline : NoBreak line)
    (h : clean line = a ++ c :: t) (hascii : isAscii c = true) (hc : c ≠ ' ') :
    ∃ before rest, line = before ++ rest ∧ IsCode before ∧ mask before = a ∧
      clean rest = c :: t := by
  obtain ⟨comment, hcomment⟩ := codePart_isPrefix line
  obtain ⟨before, behind, hcode, hbefore, hbehind⟩ := exists_append_of_maskFrom_eq h
  -- In a string the cleaned line has blanks.
  have hinside : insideAfter false before = false := by
    cases behind with
    | nil => cases hbehind
    | cons d behind =>
      have hfirst : maskFrom (insideAfter false before) [d] = [c] := by
        rw [← singleton_append, maskFrom_append, ← singleton_append] at hbehind
        exact append_inj_left hbehind (length_maskFrom _ _)
      refine inside_eq_false_of_maskFrom (cons_ne_nil d []) fun x hx => ?_
      rw [hfirst] at hx
      obtain rfl := mem_singleton.mp hx
      exact ⟨hascii, hc⟩
  have hisCode : IsCode before := by
    refine ⟨?_, ?_, ?_⟩
    · rw [← hcomment, hcode, append_assoc] at hline
      exact (noBreak_append.mp hline).1
    · rw [insideAfter_eq] at hinside
      have hodd : before.count '"' % 2 ≠ 1 := by simpa using hinside
      omega
    · have hsemi := Code.semicolon_notMem_clean line
      rw [h] at hsemi
      rw [mask, hbefore]
      exact fun hmem => hsemi (mem_append_left _ hmem)
  refine ⟨before, behind ++ comment, ?_, hisCode, hbefore, ?_⟩
  · rw [← append_assoc, ← hcode, hcomment]
  · have hsplit := hisCode.codePart_append (behind ++ comment)
    rw [← append_assoc, ← hcode, hcomment, hcode] at hsplit
    rw [clean, ← append_cancel_left hsplit, ← hbehind, hinside]
    rfl

/-- The bracketing of a text: openers and closers are brackets of any kind. -/
def bracketMark (c : Char) : ScopeMark :=
  if ListItem.isOpening c then .opener else if ListItem.isClosing c then .closer else .neither

/-- The brackets of the text that are not in strings are nested. -/
@[mk_iff] structure IsEnclosed (t : Text) : Prop extends IsCode t where
  brackets : Nested ((mask t).map bracketMark)

instance (t : Text) : Decidable (IsEnclosed t) :=
  decidable_of_iff _ (isEnclosed_iff t).symm

/-- Every comma of the text is in a string or in brackets: a bracket in front of it is open. -/
def EnclosesCommas (t : Text) : Prop :=
  ∀ i < t.length, (mask t)[i]? = some ',' →
    depthAfter 0 (((mask t).take i).map bracketMark) ≠ some 0

instance (t : Text) : Decidable (EnclosesCommas t) :=
  inferInstanceAs (Decidable (∀ i < _, _ → _))

lemma EnclosesCommas.depthAfter_ne {u v : Text} (h : EnclosesCommas t)
    (huv : mask t = u ++ ',' :: v) : depthAfter 0 (u.map bracketMark) ≠ some 0 := by
  have hlength : u.length < t.length := by
    rw [← length_maskFrom false t]
    change _ < (mask t).length
    simp [huv]
  have hcomma := h u.length hlength (by simp [huv])
  rwa [huv, take_left] at hcomma

end Text

/-! ## Reading on behind texts in code -/

namespace ListItem

variable {d e : Nat} {inside : Bool} {t : Text}

lemma bracketMark_maskChar (inside : Bool) (c : Char) :
    bracketMark (maskChar inside c) = if inside then .neither else bracketMark c := by
  obtain ⟨hopening, hclosing⟩ := bracket_maskChar inside c
  rw [bracketMark, bracketMark, hopening, hclosing]
  cases inside <;> simp

/-- What a character does to the bracketing, the count of brackets follows, and so does the split at
the equals sign inside brackets. -/
lemma step_of_depthAfter {c : Char} {word : List ScopeMark}
    (h : depthAfter d (bracketMark (maskChar inside c) :: word) = some e) :
    (∀ word, depthAfter d (bracketMark (maskChar inside c) :: word) =
        depthAfter (nextDepth d inside c) word) ∧
      ∀ rest, splitInitialFrom (d + 1) inside (c :: rest) =
        (c :: (splitInitialFrom (nextDepth d inside c + 1) (insideAfter inside [c]) rest).1,
          (splitInitialFrom (nextDepth d inside c + 1) (insideAfter inside [c]) rest).2) := by
  have hdeep : ((d : Int) + 1 == 0) = false := by
    rw [beq_eq_false_iff_ne]
    omega
  have hafter : insideAfter inside [c] = if c == '"' then !inside else inside := rfl
  rw [bracketMark_maskChar, bracketMark] at h ⊢
  simp only [splitInitialFrom, hdeep, Bool.and_false, Bool.false_eq_true, if_false, hafter,
    nextDepth]
  cases inside with
  | true => simp
  | false =>
    by_cases hopening : isOpening c = true
    · simp [hopening]
    by_cases hclosing : isClosing c = true
    · -- A closer too many has no depth behind it, so this one closes a bracket.
      cases d with
      | zero => simp [hopening, hclosing] at h
      | succ d => simp [hopening, hclosing]
    · simp [hopening, hclosing]

/-- The split of a list reads a text to its end, if every comma of the text is in brackets or in a
string. -/
lemma stateAfter_of_depthAfter
    (hdepth : depthAfter d ((maskFrom inside t).map bracketMark) = some e)
    (hcomma : ∀ u v, maskFrom inside t = u ++ ',' :: v →
      depthAfter d (u.map bracketMark) ≠ some 0) :
    stateAfter d inside t = some (e, insideAfter inside t) := by
  induction t generalizing d inside with
  | nil =>
    rw [stateAfter, Option.some.inj hdepth]
    rfl
  | cons c t ih =>
    rw [maskFrom_cons, map_cons] at hdepth
    rw [maskFrom_cons] at hcomma
    obtain ⟨hstep, -⟩ := step_of_depthAfter hdepth
    have hfirst : ¬(c = ',' ∧ d = 0 ∧ inside = false) := by
      rintro ⟨rfl, rfl, rfl⟩
      exact hcomma [] _ rfl rfl
    have hafter : insideAfter inside (c :: t) = _ := insideAfter_append inside [c] t
    rw [((step_cases d inside c).resolve_left hfirst t).2, hafter]
    refine ih (by rwa [← hstep]) fun u v huv => ?_
    rw [← hstep, ← map_cons]
    exact hcomma (maskChar inside c :: u) v (by rw [huv, cons_append])

/-- Inside brackets no equals sign ends what stands before the value. -/
lemma splitInitialFrom_of_depthAfter
    (hdepth : depthAfter d ((maskFrom inside t).map bracketMark) = some e)
    (rest : Text) :
    splitInitialFrom (d + 1) inside (t ++ rest) =
      (t ++ (splitInitialFrom (e + 1) (insideAfter inside t) rest).1,
        (splitInitialFrom (e + 1) (insideAfter inside t) rest).2) := by
  induction t generalizing d inside with
  | nil =>
    rw [Option.some.inj hdepth]
    rfl
  | cons c t ih =>
    rw [maskFrom_cons, map_cons] at hdepth
    obtain ⟨hstep, hsplit⟩ := step_of_depthAfter hdepth
    have hafter : insideAfter inside (c :: t) = _ := insideAfter_append inside [c] t
    rw [cons_append, hsplit, ih (by rwa [← hstep]), hafter]
    rfl

end ListItem

/-! ## Declarators -/

/-- Any number of spaces and tabs. -/
structure Spaces where
  text : Text
  chars : ∀ c ∈ text, c = ' ' ∨ c = '\t'

lemma Spaces.isBlanks (s : Spaces) : IsBlanks s.text := by
  intro c hc
  rcases s.chars c hc with rfl | rfl
  · decide
  · decide

lemma Spaces.isCode (s : Spaces) : IsCode s.text := by
  refine isCode_of_forall fun c hc => ?_
  rcases s.chars c hc with rfl | rfl
  · decide
  · decide

/-- The spaces around the parts of an item. -/
structure Spacing where
  beforeName : Spaces
  afterName : Spaces
  afterIndex : Spaces
  afterEquals : Spaces
  afterValue : Spaces

/-- What an item in a list of variables is written from. -/
structure Declarator where
  name : Text
  /-- What stands in the brackets behind the name, if there are any. -/
  index : Option Text
  /-- What stands behind the equals sign, if there is one. -/
  initial : Option Text
  isIdentifier_name : isIdentifier name = true
  isEnclosed_index : ∀ t ∈ index, IsEnclosed t
  isEnclosed_initial : ∀ t ∈ initial, IsEnclosed t
  enclosesCommas_initial : ∀ t ∈ initial, EnclosesCommas t
  solid_initial : ∀ t ∈ initial, allBlank t = false

namespace Declarator

/-- The index in its brackets. -/
def indexText (d : Declarator) : Text :=
  match d.index with
  | none => []
  | some t => '[' :: (t ++ [']'])

/-- The value behind its equals sign. -/
def initialText (d : Declarator) (s : Spacing) : Text :=
  match d.initial with
  | none => []
  | some t => '=' :: (s.afterEquals.text ++ (t ++ s.afterValue.text))

/-- The item as it is written. -/
def print (d : Declarator) (s : Spacing) : Text :=
  s.beforeName.text ++ (d.name ++ (s.afterName.text ++
    (d.indexText ++ (s.afterIndex.text ++ d.initialText s))))

variable (d : Declarator) (s : Spacing)

lemma isWord_name : IsWord d.name :=
  isWord_of_isIdentifier d.isIdentifier_name

lemma isCode_print : IsCode (d.print s) := by
  have hindex : IsCode d.indexText := by
    rw [indexText]
    cases hi : d.index with
    | none => exact isCode_of_forall (by simp)
    | some t =>
      have hopen : IsCode ['['] := isCode_of_forall (by decide)
      have hclose : IsCode [']'] := isCode_of_forall (by decide)
      exact hopen.append ((d.isEnclosed_index t hi).toIsCode.append hclose)
  have hinitial : IsCode (d.initialText s) := by
    rw [initialText]
    cases hi : d.initial with
    | none => exact isCode_of_forall (by simp)
    | some t =>
      have hequals : IsCode ['='] := isCode_of_forall (by decide)
      exact hequals.append (s.afterEquals.isCode.append
        ((d.isEnclosed_initial t hi).toIsCode.append s.afterValue.isCode))
  exact s.beforeName.isCode.append (d.isWord_name.isCode.append
    (s.afterName.isCode.append (hindex.append (s.afterIndex.isCode.append hinitial))))

/-! ### The split of the list -/

open ListItem

lemma isWhole_indexText : IsWhole d.indexText := by
  rw [IsWhole, indexText]
  cases hi : d.index with
  | none => rfl
  | some t =>
    have ht := d.isEnclosed_index t hi
    have hdepth := ht.brackets.depthAfter_eq 1
    have hstate : stateAfter 1 false t = some (1, insideAfter false t) := by
      refine stateAfter_of_depthAfter hdepth fun u v huv hzero => ?_
      have hprefix := ht.brackets.depthAfter_eq 0
      rw [mask, huv, map_append] at hprefix
      obtain ⟨m, hm, -⟩ := exists_depthAfter_of_append hprefix
      rw [depthAfter_add hm 1] at hzero
      cases hzero
    rw [ht.insideAfter_eq] at hstate
    change stateAfter 1 false (t ++ [']']) = some (0, false)
    rw [stateAfter_append, hstate]
    rfl

lemma isWhole_initialText : IsWhole (d.initialText s) := by
  rw [IsWhole, initialText]
  cases hi : d.initial with
  | none => rfl
  | some t =>
    have ht := d.isEnclosed_initial t hi
    have hstate : stateAfter 0 false t = some (0, insideAfter false t) :=
      stateAfter_of_depthAfter (ht.brackets.depthAfter_eq 0) fun u v huv =>
        (d.enclosesCommas_initial t hi).depthAfter_ne huv
    change stateAfter 0 false (s.afterEquals.text ++ (t ++ s.afterValue.text)) = some (0, false)
    rw [stateAfter_blanks_append s.afterEquals.isBlanks,
      stateAfter_append_blanks s.afterValue.isBlanks, hstate, ht.insideAfter_eq]

/-- **The list is not split inside an item.** -/
lemma isWhole_print : IsWhole (d.print s) := by
  rw [IsWhole, print, stateAfter_blanks_append s.beforeName.isBlanks, stateAfter_append,
    stateAfter_of_isPlain (isPlain_of_isWord d.isWord_name), Option.bind_some,
    stateAfter_blanks_append s.afterName.isBlanks, stateAfter_append, d.isWhole_indexText,
    Option.bind_some, stateAfter_blanks_append s.afterIndex.isBlanks]
  exact d.isWhole_initialText s

/-! ### The split at the equals sign -/

lemma splitInitialFrom_indexText (rest : Text) :
    splitInitialFrom 0 false (d.indexText ++ rest) =
      (d.indexText ++ (splitInitialFrom 0 false rest).1, (splitInitialFrom 0 false rest).2) := by
  rw [indexText]
  cases hi : d.index with
  | none => rfl
  | some t =>
    have ht := d.isEnclosed_index t hi
    have hopen : ∀ behind, splitInitialFrom 0 false ('[' :: behind) =
        ('[' :: (splitInitialFrom ((0 : Nat) + 1) false behind).1,
          (splitInitialFrom ((0 : Nat) + 1) false behind).2) := fun _ => rfl
    have hclose : splitInitialFrom ((0 : Nat) + 1) false (']' :: rest) =
        (']' :: (splitInitialFrom 0 false rest).1, (splitInitialFrom 0 false rest).2) := rfl
    have hsplit := splitInitialFrom_of_depthAfter (ht.brackets.depthAfter_eq 0) (']' :: rest)
    rw [ht.insideAfter_eq, hclose] at hsplit
    simp only [cons_append, append_assoc, nil_append]
    rw [hopen, hsplit]

lemma splitInitial_initialText :
    splitInitialFrom 0 false (d.initialText s) = ([], d.initial.map trim) := by
  rw [initialText]
  cases d.initial with
  | none => rfl
  | some t =>
    change ([], some (trim (s.afterEquals.text ++ (t ++ s.afterValue.text)))) = _
    rw [trim_append_of_blank s.afterEquals.isBlanks, trim_append_blanks s.afterValue.isBlanks]
    rfl

lemma splitInitial_print :
    splitInitial (d.print s) =
      (s.beforeName.text ++ (d.name ++ (s.afterName.text ++ (d.indexText ++ s.afterIndex.text))),
        d.initial.map trim) := by
  rw [splitInitial, print, splitInitialFrom_of_isPlain (isPlain_of_isBlanks s.beforeName.isBlanks),
    splitInitialFrom_of_isPlain (isPlain_of_isWord d.isWord_name),
    splitInitialFrom_of_isPlain (isPlain_of_isBlanks s.afterName.isBlanks),
    d.splitInitialFrom_indexText,
    splitInitialFrom_of_isPlain (isPlain_of_isBlanks s.afterIndex.isBlanks),
    d.splitInitial_initialText, append_nil]

/-! ### Name and value -/

/-- Behind the front of an item only an index stops the name. -/
lemma isBlanks_takeWhile_indexText :
    IsBlanks ((d.indexText ++ s.afterIndex.text).takeWhile (· != '[')) := by
  rw [indexText]
  cases d.index with
  | none => exact fun c hc => s.afterIndex.isBlanks c ((takeWhile_sublist _).subset hc)
  | some t => exact isBlanks_nil

/-- **The name is that of the declarator.** -/
lemma itemName_print : itemName (d.print s) = d.name := by
  have hfront : ∀ c ∈ s.beforeName.text ++ (d.name ++ s.afterName.text), (c != '[') = true := by
    intro c hc
    have hplain : IsPlain (s.beforeName.text ++ (d.name ++ s.afterName.text)) :=
      (isPlain_of_isBlanks s.beforeName.isBlanks).append
        ((isPlain_of_isWord d.isWord_name).append (isPlain_of_isBlanks s.afterName.isBlanks))
    rw [bne_iff_ne]
    rintro rfl
    exact hplain _ hc (by decide)
  have hleft : (splitInitial (d.print s)).1 =
      s.beforeName.text ++ (d.name ++ s.afterName.text) ++ (d.indexText ++ s.afterIndex.text) := by
    rw [splitInitial_print]
    simp only [append_assoc]
  rw [itemName, stripIndex_trim, hleft, takeWhile_append_of_pos hfront,
    trim_append_blanks (d.isBlanks_takeWhile_indexText s),
    trim_append_of_blank s.beforeName.isBlanks, trim_append_blanks s.afterName.isBlanks,
    d.isWord_name.trim_eq]

/-- **The value is that of the declarator.** -/
lemma value_print (offset : Nat) : ListItem.value ⟨offset, d.print s⟩ = d.initial.map trim := by
  rw [ListItem.value, splitInitial_print]
  cases hi : d.initial with
  | none => rfl
  | some t =>
    have hsolid : (trim t).isEmpty = false := by
      obtain ⟨c, hc, hblank⟩ := all_eq_false.mp (d.solid_initial t hi)
      rw [isEmpty_eq_false_iff]
      exact ne_nil_of_mem (mem_trim_of_solid (by simpa using hblank) hc)
    simp [hsolid]

end Declarator
end KrlWorkbench
