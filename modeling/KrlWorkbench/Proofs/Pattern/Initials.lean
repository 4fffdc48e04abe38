import KrlWorkbench.Proofs.Code.BlockKeywords
import KrlWorkbench.Proofs.Renaming.Lead

/-!
# How a pattern begins

`mayBegin` tells, from the shape of a pattern alone, whether what it fits may begin with a
character.  Most rules begin with the indentation of the line, so the first character of the line
that is no blank must be one with which the rest of the rule may begin (`exists_initial`).

For the lines that bracket scopes this settles what they cannot be at the same time: an opener is no
closer (`not_holds_scopeCloser`), and a line that holds a comment only is neither
(`not_holds_of_isBlanks`).
-/

namespace KrlWorkbench

open List Code Text

namespace Pattern

/-- Whether what the pattern fits may begin with a character. -/
def mayBegin (c : Char) : Pattern → Bool
  | .one p => p c
  | .many p => p c
  | .seq a b => a.mayBegin c || (a.minLength == 0 && b.mayBegin c)
  | .alt a b => a.mayBegin c || b.mayBegin c
  | .group _ a => a.mayBegin c
  | _ => false

variable {p a b d : Pattern} {here : Cursor} {u v : Text} {found : Groups} {c : Char}

lemma Fits.mayBegin (h : Fits p here u v found) (hu : u.head? = some c) : p.mayBegin c = true := by
  induction h with
  | empty => simp at hu
  | one here hc v =>
    obtain rfl := Option.some.inj hu
    exact hc
  | many here hall v => exact hall c (mem_of_mem_head? hu)
  | @seq a b here u u' v found found' ha hb iha ihb =>
    rw [Pattern.mayBegin]
    cases u with
    | nil =>
      have hmin : a.minLength = 0 := Nat.le_zero.mp ha.minLength_le
      simp [hmin, ihb hu]
    | cons d u => simp [iha hu]
  | altLeft _ ih => simp [Pattern.mayBegin, ih hu]
  | altRight _ ih => simp [Pattern.mayBegin, ih hu]
  | group i _ ih => exact ih hu
  | textStart => simp at hu
  | textEnd => simp at hu
  | wordBoundary => simp at hu

@[simp] lemma mayBegin_append (c : Char) (a b : Pattern) :
    (a ++ b).mayBegin c = (a.mayBegin c || (a.minLength == 0 && b.mayBegin c)) := rfl

lemma sameFold_of_mayBegin_keyword {k : String} {first : Char} (hk : k.toList.head? = some first)
    (h : (keyword k).mayBegin c = true) : sameFold first c = true := by
  obtain ⟨more, hmore⟩ := head?_eq_some_iff.mp hk
  rw [keyword, hmore, word, foldr_cons, mayBegin_append] at h
  simpa [Pattern.mayBegin, minLength] using h

lemma sameFold_of_mayBegin_anyKeyword {ks : List String} {first : Char}
    (hks : ∀ k ∈ ks, k.toList.head? = some first) (h : (anyKeyword ks).mayBegin c = true) :
    sameFold first c = true := by
  induction ks using anyKeyword.induct with
  | case1 => simp [anyKeyword, Pattern.mayBegin] at h
  | case2 k => exact sameFold_of_mayBegin_keyword (hks k mem_cons_self) h
  | case3 k ks hne ih =>
    rw [anyKeyword, Pattern.mayBegin, Bool.or_eq_true] at h
    · rcases h with h | h
      · exact sameFold_of_mayBegin_keyword (hks k mem_cons_self) h
      · exact ih (forall_mem_cons.mp hks).2 h
    · exact hne

/-- How pieces that follow one another are grouped does not matter. -/
lemma Fits.assoc (h : Fits (a ++ b ++ d) here u v found) : Fits (a ++ (b ++ d)) here u v found := by
  obtain ⟨w, u₃, f, f₃, rfl, rfl, hab, hd⟩ := h.exists_of_append
  obtain ⟨u₁, u₂, f₁, f₂, rfl, rfl, ha, hb⟩ := hab.exists_of_append
  rw [← Cursor.skip_skip here u₁ u₂ (u₂ ++ (u₃ ++ v))] at hd
  rw [← append_assoc] at ha hb hd
  rw [append_assoc u₁, ← append_assoc f₃]
  exact .seq ha (.seq hb hd)

end Pattern

namespace LineRule

open Pattern

variable {rule : LineRule} {body : Pattern} {text : Text} {c : Char}

/-- The first character of a line that is no blank begins what follows the indentation. -/
lemma exists_initial {u v : Text} {found : Groups}
    (h : Fits (indent ++ body) (between [] text) u v found) (hbody : body.minLength ≠ 0) :
    ∃ lead c rest, u = lead ++ c :: rest ∧ IsBlanks lead ∧ body.mayBegin c = true := by
  obtain ⟨lead, w, _, _, rfl, -, hlead, hw⟩ := h.exists_of_append
  cases w with
  | nil => exact absurd (Nat.le_zero.mp hw.minLength_le) hbody
  | cons c rest => exact ⟨lead, c, rest, rfl, (blank_of_fits_indent hlead).2.1, hw.mayBegin rfl⟩

/-- A rule that begins with the indentation fits at the start of the line. -/
lemma exists_fits_of_holds (hrule : rule.pattern.startsText = true) (h : rule.holds text = true) :
    ∃ u v found, text = u ++ v ∧ Fits rule.pattern (between [] text) u v found := by
  obtain ⟨m, hm⟩ := Option.isSome_iff_exists.mp h
  obtain ⟨u, v, htext, hfits⟩ := exists_fits_of_find? hrule hm
  exact ⟨u, v, _, htext, hfits⟩

/-! ## Lines that bracket scopes -/

lemma isWordChar_of_sameFold {k : Char} (hk : isNameChar k = true) (h : sameFold k c = true) :
    isWordChar c = true := by
  have hword : sameWord [k] [c] = true := sameWord_cons_cons.mpr ⟨h, sameWord_refl []⟩
  exact isWordChar_of_sameWord (by simpa using hk) hword c (by simp)

lemma exists_initial_of_scopeOpener (h : scopeOpener.holds text = true) :
    ∃ lead c rest, text = lead ++ c :: rest ∧ IsBlanks lead ∧
      (sameFold 'G' c = true ∨ sameFold 'D' c = true) := by
  obtain ⟨u, v, found, rfl, hfits⟩ := exists_fits_of_holds rfl h
  obtain ⟨lead, c, rest, rfl, hlead, hc⟩ := exists_initial hfits.assoc.assoc (by decide)
  refine ⟨lead, c, rest ++ v, by simp, hlead, ?_⟩
  rw [mayBegin_append, Bool.or_eq_true, mayBegin_append, Bool.and_eq_true, Bool.or_eq_true] at hc
  rcases hc with hglobal | ⟨-, hkeyword | hboundary⟩
  · have hmin : (keyword "GLOBAL").minLength ≠ 0 := by decide
    rw [skip, option, mayBegin, mayBegin_append] at hglobal
    exact .inl (sameFold_of_mayBegin_keyword (k := "GLOBAL") rfl
      (by simpa [hmin, mayBegin] using hglobal))
  · exact .inr (sameFold_of_mayBegin_anyKeyword (by decide) hkeyword)
  · simp [mayBegin] at hboundary

lemma exists_initial_of_scopeCloser (h : scopeCloser.holds text = true) :
    ∃ lead c rest, text = lead ++ c :: rest ∧ IsBlanks lead ∧ sameFold 'E' c = true := by
  obtain ⟨u, v, found, rfl, hfits⟩ := exists_fits_of_holds rfl h
  obtain ⟨lead, c, rest, rfl, hlead, hc⟩ := exists_initial hfits.assoc (by decide)
  refine ⟨lead, c, rest ++ v, by simp, hlead, ?_⟩
  rw [mayBegin_append, Bool.or_eq_true] at hc
  rcases hc with hkeyword | hboundary
  · exact sameFold_of_mayBegin_anyKeyword (by decide) hkeyword
  · simp [mayBegin] at hboundary

lemma not_holds_of_isBlanks (h : IsBlanks text) :
    scopeOpener.holds text = false ∧ scopeCloser.holds text = false := by
  have hsolid : ∀ {lead rest : Text} {k c : Char}, isNameChar k = true → sameFold k c = true →
      text ≠ lead ++ c :: rest := by
    rintro lead rest k c hk hc rfl
    have hblank := isBlank_of_isWordChar (isWordChar_of_sameFold hk hc)
    rw [h c (by simp)] at hblank
    cases hblank
  constructor
  · rw [Bool.eq_false_iff]
    intro hopener
    obtain ⟨lead, c, rest, htext, -, hc | hc⟩ := exists_initial_of_scopeOpener hopener
    · exact hsolid (by decide) hc htext
    · exact hsolid (by decide) hc htext
  · rw [Bool.eq_false_iff]
    intro hcloser
    obtain ⟨lead, c, rest, htext, -, hc⟩ := exists_initial_of_scopeCloser hcloser
    exact hsolid (by decide) hc htext

lemma not_holds_scopeCloser (h : scopeOpener.holds text = true) :
    scopeCloser.holds text = false := by
  rw [Bool.eq_false_iff]
  intro hcloser
  obtain ⟨lead, c, rest, rfl, hlead, hc⟩ := exists_initial_of_scopeOpener h
  obtain ⟨lead', c', rest', heq, hlead', hc'⟩ := exists_initial_of_scopeCloser hcloser
  have hstart : startsWord (c :: rest) = true := by
    rcases hc with hc | hc
    · exact isWordChar_of_sameFold (by decide) hc
    · exact isWordChar_of_sameFold (by decide) hc
  have hstart' : startsWord (c' :: rest') = true := isWordChar_of_sameFold (by decide) hc'
  obtain ⟨-, htail⟩ := hlead.append_inj hlead' hstart hstart' heq
  obtain ⟨rfl, -⟩ := List.cons.inj htail
  rw [sameFold_iff] at hc'
  rw [sameFold_iff, sameFold_iff, ← hc'] at hc
  revert hc
  decide

/-! ## Lines that mark regions -/

lemma isBlanks_codePart_of_semicolon {lead : Text} (hlead : IsBlanks lead) (rest : Text) :
    IsBlanks (codePart (lead ++ ';' :: rest)) := by
  rw [codePart, codeFrom_blanks_append hlead]
  simpa [codeFrom] using hlead

lemma isBlanks_codePart {line : Text}
    (h : foldOpen.holds line = true ∨ foldClose.holds line = true) : IsBlanks (codePart line) := by
  have hrule : ∀ {rule : LineRule} {k : String}, rule.holds line = true →
      rule.pattern = indent ++ char ';' ++ blanks ++ keyword k ++ .wordBoundary →
      IsBlanks (codePart line) := by
    intro rule k hholds hpattern
    obtain ⟨u, v, found, rfl, hfits⟩ :=
      exists_fits_of_holds (by rw [hpattern]; rfl) hholds
    rw [hpattern] at hfits
    obtain ⟨lead, c, rest, rfl, hlead, hc⟩ :=
      exists_initial hfits.assoc.assoc.assoc (Nat.ne_of_gt (Nat.lt_add_right _ Nat.one_pos))
    have hsemicolon : c = ';' := by simpa [char, mayBegin, minLength] using hc
    rw [hsemicolon, append_assoc]
    exact isBlanks_codePart_of_semicolon hlead _
  rcases h with h | h
  · exact hrule (k := "FOLD") h rfl
  · exact hrule (k := "ENDFOLD") h rfl

end LineRule
end KrlWorkbench
