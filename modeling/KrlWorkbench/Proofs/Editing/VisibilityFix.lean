import KrlWorkbench.Editing.QuickFix
import KrlWorkbench.Proofs.Code.DataListKeywords
import KrlWorkbench.Proofs.Finding.DataLists
import KrlWorkbench.Proofs.Text.LineEdits

/-!
# Mending the visibility of a declaration

A declaration in a public data list has to say `GLOBAL`, and one in a private list must not.  Three
fixes are offered.  Each is one edit inside a line, so it is enough to see what the line is
afterwards and, for a header, which list is then around the declaration.

* Adding `GLOBAL` in front of the declaration always mends it (`ListedLine.exists_added`).
* Removing `GLOBAL` takes the first one away.  The line is mended unless it says `GLOBAL` again
  (`ListedLine.exists_removed`).
* Making a list public changes the first private header of the document.  The line is mended if
  this is the header of the list around it (`ListedLine.exists_published`).

So a fix mends the line it is offered for exactly if its edit suits the line (`TextEdit.Suits`).
-/

namespace KrlWorkbench

open List Code LineRule Text

variable {text a w s z code : Text} {n : Nat} {name : Capture} {d : Diagnostic} {found : Match}

/-- The diagnostic says that a declaration does not fit the visibility of its list. -/
def Diagnostic.IsVisibility (d : Diagnostic) : Prop :=
  d.code? = some .missingGlobal ∨ d.code? = some .globalNotPublic

/-- Whether code says `GLOBAL` again behind the first one. -/
def repeatsGlobal (code : Text) : Bool :=
  match globalKeyword.find? code with
  | some found => globalKeyword.holds (dropBytes found.whole.stop code)
  | none => false

/-- Line `k` stands above line `n`, and no line between the two heads or closes a data list. -/
structure HeaderAbove (text : Text) (k n : Nat) : Prop where
  lt : k < n
  between : ∀ i raw, k < i → i < n → text.lines[i]? = some raw →
    Finding.boundsList (clean raw) = false

/-- The edit suits line `n`: if it takes a `GLOBAL` away, the line does not say it again, and if it
makes a list public, this is the list around the line. -/
structure TextEdit.Suits (text : Text) (n : Nat) (edit : TextEdit) : Prop where
  removed : edit.newText = [] →
    ∀ raw, text.lines[n]? = some raw → repeatsGlobal (clean raw) = false
  published : edit.newText = " PUBLIC".toList → HeaderAbove text edit.range.start.line n

namespace TextEdit

lemma suits_add (text : Text) (n : Nat) (range : Range) :
    Suits text n ⟨range, "GLOBAL ".toList⟩ where
  removed hnil := absurd (show "GLOBAL ".toList = [] from hnil) (by decide)
  published hpublic := absurd (show "GLOBAL ".toList = " PUBLIC".toList from hpublic) (by decide)

lemma suits_remove_iff {raw : Text} (hraw : text.lines[n]? = some raw) (range : Range) :
    Suits text n ⟨range, []⟩ ↔ repeatsGlobal (clean raw) = false := by
  refine ⟨fun h => h.removed rfl raw hraw, fun h => ⟨fun _ raw' hraw' => ?_, fun hpublic => ?_⟩⟩
  · obtain rfl := Option.some.inj (hraw.symm.trans hraw')
    exact h
  · exact absurd (show [] = " PUBLIC".toList from hpublic) (by decide)

lemma suits_publish_iff {range : Range} :
    Suits text n ⟨range, " PUBLIC".toList⟩ ↔ HeaderAbove text range.start.line n := by
  refine ⟨fun h => h.published rfl, fun h => ⟨fun hnil => ?_, fun _ => h⟩⟩
  exact absurd (show " PUBLIC".toList = [] from hnil) (by decide)

end TextEdit

namespace Finding

/-! ## A line in a list -/

/-- Line `n` declares something in a data list that is public or not. -/
structure ListedLine (text : Text) (n : Nat) (raw : Text) (isPublic : Bool) : Prop where
  line : text.lines[n]? = some raw
  inner : boundsList (clean raw) = false
  declares : declKeyword.holds (clean raw) = true
  state : listState (text.lines.take n) = some isPublic

variable {text text' raw raw' : Text} {view : WorkspaceView} {n k : Nat}

/-- The state in front of a line does not depend on the line. -/
lemma listState_take_replaced (h : Replaced text k raw raw' text') (hn : n ≤ k) :
    listState (text'.lines.take n) = listState (text.lines.take n) := by
  rw [h.lines, take_set_of_le hn]

/-- A finding is about a line of a list. -/
lemma exists_listedLine {f : Finding} (hf : f ∈ visibility (Context.ofText text view)) :
    ∃ n raw, f.range.start.line = n ∧ (f.cause.code = .missingGlobal ∧ ListedLine text n raw true ∧
        f.range = text.span n (indentBytes (clean raw)) (byteLength (trim (clean raw))) ∨
      f.cause.code = .globalNotPublic ∧ ListedLine text n raw false ∧
        ∃ found, globalKeyword.find? (clean raw) = some found ∧
          f.range = text.span n found.whole.start "GLOBAL".length) := by
  obtain ⟨line, hline, isPublic, hbounds, hstate, hf⟩ := mem_visibility_iff.mp hf
  obtain ⟨hraw, hcode⟩ := Context.getElem?_of_mem_lines hline
  refine ⟨line.number, line.raw, line_eq_of_marks hline (marks_of_mem_visibilityOf hf), ?_⟩
  rw [← hcode]
  rw [visibilityOf] at hf
  split at hf
  case isTrue => cases hf
  case isFalse hdecl =>
    have hdecl : declKeyword.holds line.code = true := by simpa using hdecl
    split at hf
    case h_1 =>
      obtain rfl := mem_singleton.mp hf
      exact .inl ⟨rfl, ⟨hraw, hcode ▸ hbounds, hcode ▸ hdecl, hstate⟩, rfl⟩
    case h_2 found hfound =>
      obtain rfl := mem_singleton.mp hf
      exact .inr ⟨rfl, ⟨hraw, hcode ▸ hbounds, hcode ▸ hdecl, hstate⟩, found, hfound, rfl⟩
    case h_3 => cases hf

/-! ## Adding and removing `GLOBAL` -/

/-- What a changed line is decides whether it carries a finding. -/
lemma carriesVisibility_replaced_iff (h : Replaced text n raw raw' text') :
    CarriesVisibility text' view n ↔ boundsList (clean raw') = false ∧
      declKeyword.holds (clean raw') = true ∧
      listState (text.lines.take n) = some !globalKeyword.holds (clean raw') := by
  rw [Finding.carriesVisibility_iff h.getElem?_self, listState_take_replaced h (Nat.le_refl n)]

/-- **`GLOBAL` in front of the declaration** is one that counts, whatever stands in strings before
it. -/
lemma ListedLine.exists_added (h : ListedLine text n raw true) (view : WorkspaceView) :
    ∃ text' new, text.applyEdits
        [⟨text.span n (indentBytes (clean raw)) 0, "GLOBAL ".toList⟩] = some text' ∧
      text'.lines = text.lines.set n new ∧ ¬CarriesVisibility text' view n := by
  obtain ⟨lead, g, c, d, rest, hdecl⟩ := holds_declKeyword_iff.mp h.declares
  obtain ⟨w, t, hcode, hw, -⟩ := hdecl.exists_modifier
  have hword := isWord_of_isModifier hw
  obtain ⟨x, w, rfl⟩ := exists_cons_of_ne_nil hword.ne_nil
  have hindent : indentBytes (clean raw) = byteLength lead := by
    have hx : isBlank x = false := isBlank_of_isWordChar (hword.chars x mem_cons_self)
    rw [indentBytes, hcode, takeWhile_append_of_pos hdecl.isBlanks_lead, cons_append,
      takeWhile_cons_of_neg (by simp [hx]), append_nil]
  obtain ⟨before, behind, rfl, hbefore, hmask, hbehind⟩ := exists_isCode_of_clean
    (noBreak_of_mem_lines (mem_of_getElem? h.line)) hcode (isAscii_of_isModifier hw)
    (ne_of_isWordChar (by decide) (hword.chars x mem_cons_self))
  have hline : text.lines[n]? = some (before ++ ([] ++ behind)) := h.line
  have hnew : IsCode "GLOBAL ".toList := by decide
  obtain ⟨text', happly, hlines, -⟩ := exists_applyEdits_span hline hnew.noBreak (by simp)
  -- What stands in front is code, so cleaning acts on the parts one by one.
  have hcode' : clean (before ++ ("GLOBAL ".toList ++ behind)) =
      lead ++ ("GLOBAL".toList ++ (' ' :: clean behind)) := by
    rw [hbefore.clean_append, hnew.clean_append, hmask]
    rfl
  have hglobal : globalKeyword.holds (clean (before ++ ("GLOBAL ".toList ++ behind))) = true :=
    holds_globalKeyword_iff.mpr ⟨lead, _, _, hcode', sameWord_refl _,
      endsWord_of_isBlanks hdecl.isBlanks_lead, isBlanks_space ' ' mem_cons_self⟩
  refine ⟨text', _, ?_, hlines, ?_⟩
  · rw [hindent, ← hmask, byteLength_mask]
    exact happly
  · rw [carriesVisibility_replaced_iff ⟨hline, hlines⟩, h.state, hglobal]
    simp

/-- The `GLOBAL` that is found in the cleaned line stands in the line. -/
lemma exists_before_global (hline : NoBreak raw) (h : FirstGlobal (clean raw) a w s z) :
    ∃ before behind, raw = before ++ behind ∧ IsCode before ∧ mask before = a ∧
      clean behind = w ++ (s ++ z) := by
  have hword := BlockKind.isWord_of_global h.sameWord
  obtain ⟨x, w, rfl⟩ := exists_cons_of_ne_nil hword.ne_nil
  exact exists_isCode_of_clean hline h.eq
    (isAscii_of_isModifier (isModifier_of_sameWord (by decide) h.sameWord))
    (ne_of_isWordChar (by decide) (hword.chars x mem_cons_self))

/-- The fix takes it away with blanks behind it, and the rest is code as before. -/
lemma exists_behind_global {behind : Text} (h : FirstGlobal code a w s z) (hline : NoBreak behind)
    (hbehind : clean behind = w ++ (s ++ z)) (hfound : globalKeyword.find? behind = some found)
    (hstart : found.whole.start = 0) :
    ∃ v s', behind = found.whole.text ++ v ∧ IsBlanks s' ∧ clean v = s' ++ z := by
  obtain ⟨lead, u, v, rfl, hwhole, hfits⟩ := Pattern.matches_of_find? hfound
  rw [hwhole] at hstart ⊢
  obtain rfl : lead = [] := by
    have hle : lead.length ≤ 0 := (length_le_byteLength lead).trans_eq hstart
    exact eq_nil_of_length_eq_zero (Nat.le_zero.mp hle)
  obtain ⟨w', t, rfl, hw', -, ht, hne⟩ := exists_of_fits_globalKeyword hfits
  rw [nil_append] at hbehind hline ⊢
  have hword := BlockKind.isWord_of_global hw'
  have hchars : ∀ c ∈ w' ++ t, isBlank c = true ∨ isWordChar c = true := fun c hc =>
    (mem_append.mp hc).elim (fun hc => .inr (hword.chars c hc)) (fun hc => .inl (ht c hc))
  have hcode : IsCode (w' ++ t) :=
    isCode_of_isBlank_or_isWordChar hchars (noBreak_append.mp hline).1
  have hquote : '"' ∉ w' ++ t := fun hmem => absurd (hchars _ hmem) (by decide)
  rw [hcode.clean_append_of_notMem hquote, append_assoc] at hbehind
  obtain ⟨-, hrest⟩ := hword.append_inj (BlockKind.isWord_of_global h.sameWord)
    (startsWord_blanks_append ht hne _) (startsWord_blanks_append h.isBlanks h.ne_nil z) hbehind
  obtain ⟨s', rfl, hv⟩ := ht.exists_append h.stop hrest
  exact ⟨v, s', rfl, fun c hc => h.isBlanks c (mem_append_right t hc), hv⟩

/-- Where the code says `GLOBAL` again it does so behind the first one. -/
lemma repeatsGlobal_eq (h : FirstGlobal code a w s z)
    (hfound : globalKeyword.find? code = some found)
    (hwhole : found.whole = ⟨byteLength a, w ++ s⟩) :
    repeatsGlobal code = globalKeyword.holds z := by
  have hcode : code = (a ++ (w ++ s)) ++ z := by simp [h.eq]
  have hstop : found.whole.stop = byteLength (a ++ (w ++ s)) := by
    simp [hwhole, Capture.stop]
  simp only [repeatsGlobal, hfound, hstop]
  rw [hcode, dropBytes_append]

example : repeatsGlobal "GLOBAL DECL GLOBAL INT x".toList = true := by decide +kernel

/-- A declaration without its first `GLOBAL` neither heads nor closes a list. -/
lemma boundsList_without {s' : Text} (h : FirstGlobal code a w s z) (hs' : IsBlanks s')
    (hdecl : declKeyword.holds code = true) (hcode : boundsList code = false) :
    boundsList (a ++ (s' ++ z)) = false := by
  rw [boundsList, Bool.or_eq_false_iff] at hcode ⊢
  constructor
  · rw [← Bool.not_eq_true]
    intro hheader
    obtain ⟨m, hm⟩ := Option.isSome_iff_exists.mp hheader
    obtain ⟨_, _, _, _, _, hline, -⟩ := exists_headerLine hm
    have hnone := hline.declares_eq_false
    rw [h.declares_without hs' hdecl] at hnone
    cases hnone
  · rw [← Bool.not_eq_true]
    intro hcloser
    have hin := h.isIn_of_isIn_without hs' (BlockKind.isIdentifier_closer .dataList) hcloser
    exact Bool.false_ne_true (hcode.2.symm.trans hin)

/-- **Taking the first `GLOBAL` away** mends the line if there is no other. -/
lemma ListedLine.exists_removed (h : ListedLine text n raw false)
    (hfound : globalKeyword.find? (clean raw) = some found) {length : Nat}
    (hd : d.range = text.span n found.whole.start length) {range : Range}
    (hrange : QuickFix.globalRange? text d = some range) (view : WorkspaceView) :
    ∃ text' new, text.applyEdits [⟨range, []⟩] = some text' ∧ range.start.line = n ∧
      text'.lines = text.lines.set n new ∧
      (CarriesVisibility text' view n ↔ repeatsGlobal (clean raw) = true) := by
  obtain ⟨a, w, s, z, hfirst, hwhole⟩ := exists_firstGlobal hfound
  have hnoBreak := noBreak_of_mem_lines (mem_of_getElem? h.line)
  obtain ⟨before, behind, rfl, hbefore, hmask, hbehind⟩ := exists_before_global hnoBreak hfirst
  have hbytes : found.whole.start = byteLength before := by
    rw [hwhole, ← hmask, byteLength_mask]
  rw [hbytes] at hd
  simp only [QuickFix.globalRange?, hd, line_start_span h.line, columnOf_start_span h.line, h.line,
    Option.bind_eq_bind, Option.bind_some, dropBytes_append, Option.bind_eq_some_iff] at hrange
  obtain ⟨found', hfound', hrange⟩ := hrange
  split at hrange
  case isFalse => cases hrange
  case isTrue hstart =>
    obtain rfl := Option.some.inj hrange
    obtain ⟨v, s', rfl, hs', hv⟩ := exists_behind_global hfirst (noBreak_append.mp hnoBreak).2
      hbehind hfound' hstart
    have hcode : clean (before ++ ([] ++ v)) = a ++ (s' ++ z) := by
      rw [nil_append, hbefore.clean_append, hmask, hv]
    have hdecl := hfirst.declares_without hs' h.declares
    -- The edit leaves something of the line, for it still declares.
    have hne : before ++ ([] ++ v) ≠ [] := by
      intro hnil
      rw [hnil] at hcode
      rw [← hcode] at hdecl
      exact absurd hdecl (by decide)
    obtain ⟨text', happly, hlines, -⟩ := exists_applyEdits_span h.line noBreak_nil hne
    refine ⟨text', _, happly, line_start_span h.line _, hlines, ?_⟩
    rw [carriesVisibility_replaced_iff ⟨h.line, hlines⟩, h.state, hcode, hfirst.holds_without hs',
      repeatsGlobal_eq hfirst hfound hwhole]
    simp [hdecl, boundsList_without hfirst hs' h.declares h.inner]

/-! ## Making a list public -/

/-- The first private header, as it stands in its line. -/
lemma exists_of_privateList? {lines : List Text}
    (h : QuickFix.privateList? lines = some (k, name)) :
    ∃ line lead w s rest, lines[k]? = some line ∧
      HeaderLine (codePart line) lead w s name.text rest ∧
      name.start = byteLength (lead ++ (w ++ s)) := by
  obtain ⟨⟨line, number⟩, hline, hfound⟩ := exists_of_findSome?_eq_some h
  dsimp only at hfound
  split at hfound
  case h_1 found hheader =>
    split_ifs at hfound
    obtain ⟨lead, w, s, text, rest, hheader, hgroup⟩ := exists_headerLine hheader
    rw [hgroup, Option.map_some, Option.some.injEq, Prod.mk.injEq] at hfound
    obtain ⟨rfl, rfl⟩ := hfound
    exact ⟨line, lead, w, s, rest, mem_zipIdx_iff_getElem?.mp hline, hheader, rfl⟩
  case h_2 => cases hfound

lemma exists_take_replaced (h : Replaced text k raw raw' text') (hn : k < n) :
    ∃ above inner, text.lines.take n = above ++ raw :: inner ∧
      text'.lines.take n = above ++ raw' :: inner ∧
      ∀ l, l ∈ inner ↔ ∃ i, k < i ∧ i < n ∧ text.lines[i]? = some l := by
  obtain ⟨hk, rfl⟩ := List.getElem?_eq_some_iff.mp h.line
  have hset : ∀ l, (text.lines.set k l).take n =
      (text.lines.take n).take k ++ l :: (text.lines.take n).drop (k + 1) := by
    intro l
    rw [take_set, set_eq_take_append_cons_drop, if_pos (by simp; omega)]
  refine ⟨_, _, by rw [← hset, set_getElem_self], by rw [h.lines, hset], fun l => ?_⟩
  rw [mem_iff_getElem?]
  simp only [getElem?_drop, getElem?_take, Option.ite_none_right_eq_some]
  constructor
  · rintro ⟨j, hj, hl⟩
    exact ⟨k + 1 + j, by omega, hj, hl⟩
  · rintro ⟨i, hi, him, hl⟩
    obtain ⟨j, rfl⟩ := Nat.exists_eq_add_of_lt hi
    rw [Nat.add_right_comm] at him hl
    exact ⟨j, him, hl⟩

/-- **Which list a public header opens.**  The lines below it are in a public list up to the next
line that heads or closes one.  From there on nothing has changed. -/
lemma listState_published (h : Replaced text k raw raw' text') (hn : k < n)
    (hpublic : ∀ state, nextState state (clean raw') = some true) :
    (HeaderAbove text k n → listState (text'.lines.take n) = some true) ∧
      (¬HeaderAbove text k n → listState (text'.lines.take n) = listState (text.lines.take n)) := by
  obtain ⟨above, inner, htake, htake', hinner⟩ := exists_take_replaced h hn
  simp only [listState, htake, htake', map_append, map_cons, foldl_append, foldl_cons, hpublic]
  constructor
  · intro habove
    refine foldl_nextState_of_not_boundsList (fun code hcode => ?_) _
    obtain ⟨l, hl, rfl⟩ := mem_map.mp hcode
    obtain ⟨i, hki, hin, hi⟩ := (hinner l).mp hl
    exact habove.between i l hki hin hi
  · intro hnot
    obtain ⟨l, hl, hbounds⟩ : ∃ l ∈ inner, boundsList (clean l) = true := by
      by_contra hnone
      refine hnot ⟨hn, fun i l hki hin hi => ?_⟩
      rw [← Bool.not_eq_true]
      exact fun hbounds => hnone ⟨l, (hinner l).mpr ⟨i, hki, hin, hi⟩, hbounds⟩
    exact foldl_nextState_of_boundsList (mem_map_of_mem hl) hbounds _ _

lemma exists_public_header (h : QuickFix.privateList? text.lines = some (k, name)) :
    ∃ text' line line', text.applyEdits [⟨text.span k name.stop 0, " PUBLIC".toList⟩] = some text' ∧
      (text.span k name.stop 0).start.line = k ∧ Replaced text k line line' text' ∧
      boundsList (clean line) = true ∧ ∀ state, nextState state (clean line') = some true := by
  obtain ⟨line, lead, w, s, rest, hline, hheader, hstart⟩ := exists_of_privateList? h
  have hnoBreak := noBreak_of_mem_lines (mem_of_getElem? hline)
  obtain ⟨hcode, hquote⟩ := hheader.isCode
    (hnoBreak.of_subset (codePart_isPrefix line).subset)
  obtain ⟨comment, hcomment⟩ := codePart_isPrefix line
  have hsplit : line = (lead ++ (w ++ (s ++ name.text))) ++ ([] ++ (rest ++ comment)) := by
    rw [← hcomment, hheader.eq]
    simp
  have hstop : name.stop = byteLength (lead ++ (w ++ (s ++ name.text))) := by
    simp [Capture.stop, hstart, Nat.add_assoc]
  rw [hsplit] at hline
  have hnew : IsCode " PUBLIC".toList := by decide
  obtain ⟨text', happly, hlines, -⟩ := exists_applyEdits_span hline hnew.noBreak (by simp)
  rw [hstop]
  refine ⟨text', _, _, happly, line_start_span hline 0, ⟨hline, hlines⟩, ?_, fun state => ?_⟩
  · rw [hcode.clean_append_of_notMem hquote]
    have hholds := hheader.holds (clean (rest ++ comment))
    simp only [boundsList, append_assoc, nil_append, hholds, Bool.true_or]
  · rw [hcode.clean_append_of_notMem hquote, hnew.clean_append_of_notMem (by decide)]
    obtain ⟨m, hm, hpublic⟩ := hheader.exists_public (clean (rest ++ comment))
    simp only [nextState, append_assoc, hm, hpublic]

/-- **Making a list public** mends the lines below its header, up to the next line that heads or
closes a list. -/
lemma ListedLine.exists_published (h : ListedLine text n raw false)
    (hglobal : globalKeyword.holds (clean raw) = true)
    (hprivate : QuickFix.privateList? text.lines = some (k, name)) (view : WorkspaceView) :
    ∃ text' new, text.applyEdits [⟨text.span k name.stop 0, " PUBLIC".toList⟩] = some text' ∧
      (text.span k name.stop 0).start.line = k ∧ text'.lines = text.lines.set k new ∧
      (CarriesVisibility text' view n ↔ ¬HeaderAbove text k n) := by
  obtain ⟨text', line, line', happly, hstart, hreplaced, hbounds, hpublic⟩ :=
    exists_public_header hprivate
  have hne : n ≠ k := by
    rintro rfl
    obtain rfl := Option.some.inj (h.line.symm.trans hreplaced.line)
    exact Bool.false_ne_true (h.inner.symm.trans hbounds)
  have hcarries : CarriesVisibility text' view n ↔ listState (text'.lines.take n) = some false := by
    rw [Finding.carriesVisibility_iff ((hreplaced.getElem?_of_ne hne).trans h.line), hglobal]
    exact ⟨fun hall => hall.2.2, fun hstate => ⟨h.inner, h.declares, hstate⟩⟩
  refine ⟨text', line', happly, hstart, hreplaced.lines, hcarries.trans ?_⟩
  rcases Nat.lt_or_gt_of_ne hne with hn | hn
  · rw [listState_take_replaced hreplaced (Nat.le_of_lt hn), h.state]
    exact iff_of_true rfl fun habove => absurd habove.lt (Nat.lt_asymm hn)
  · obtain ⟨habove, hsame⟩ := listState_published hreplaced hn hpublic
    by_cases hheader : HeaderAbove text k n
    · rw [habove hheader]
      exact iff_of_false (by simp) (not_not_intro hheader)
    · rw [hsame hheader, h.state]
      exact iff_of_true rfl hheader

end Finding

/-! ## The fixes -/

lemma Diagnostic.isVisibility_ofFinding {ctx : Context} {f : Finding}
    (hf : f ∈ Finding.visibility ctx) (locale : Locale) : (ofFinding locale f).IsVisibility := by
  have hcheck := forall₂_same.mp (Finding.forall₂_codeChecks ctx.agrees_refl false) _
    (mem_of_getElem? (i := 1) rfl)
  have hcode := hcheck.2.code_mem f hf
  rw [IsVisibility, code?_ofFinding]
  simpa using hcode

/-- Diagnostics about visibility point at the lines that carry a finding. -/
lemma forall_visibility_iff {isSystemFile : Bool} {view : WorkspaceView}
    {options : Finding.Options} :
    (∀ e ∈ diagnose text isSystemFile view options, e.IsVisibility → e.range.start.line ≠ n) ↔
      ¬Finding.CarriesVisibility text view n := by
  constructor
  · rintro hnone ⟨f, hf, hline⟩
    exact hnone _ (mem_diagnose_of_mem_check (i := 1) rfl hf)
      (Diagnostic.isVisibility_ofFinding hf _) hline
  · rintro hnone e he (hcode | hcode) hline
    all_goals
      obtain ⟨f, hf, -, rfl⟩ := exists_finding_of_mem_diagnose (i := 1) rfl he hcode (by decide)
      exact hnone ⟨f, hf, hline⟩

/-- The fixes for a global declaration in a private list. -/
lemma QuickFix.edit_of_mem_forGlobalNotPublic {fix : QuickFix}
    (h : fix ∈ forGlobalNotPublic text d) :
    (∃ range, globalRange? text d = some range ∧ fix.edit = ⟨range, []⟩) ∨
      ∃ k name, privateList? text.lines = some (k, name) ∧
        fix.edit = ⟨text.span k name.stop 0, " PUBLIC".toList⟩ := by
  rcases mem_append.mp h with h | h
  · split at h
    case h_1 range hrange =>
      obtain rfl := mem_singleton.mp h
      exact .inl ⟨range, hrange, rfl⟩
    case h_2 => cases h
  · split at h
    case h_1 k name hprivate =>
      obtain rfl := mem_singleton.mp h
      exact .inr ⟨k, name, hprivate, rfl⟩
    case h_2 => cases h

/-- Where there is a private list, making it public is offered. -/
lemma QuickFix.exists_mem_offer_publish {k : Nat} (hcode : d.code? = some .globalNotPublic)
    (h : privateList? text.lines = some (k, name)) :
    ∃ fix ∈ offer text [d], fix.edit = ⟨text.span k name.stop 0, " PUBLIC".toList⟩ := by
  rw [offer, flatMap_singleton, forDiagnostic, hcode]
  refine ⟨⟨s!"Mark DEFDAT '{String.ofList name.text}' PUBLIC", d,
    ⟨text.span k name.stop 0, " PUBLIC".toList⟩, true⟩, mem_append_right _ ?_, rfl⟩
  rw [h]
  exact mem_singleton_self _

/-- **A fix mends the declaration it is offered for exactly if its edit suits the line.**  The edit
applies and changes one line.  Then the line of the declaration carries no diagnostic about
visibility, unless the edit took away one of two `GLOBAL`s or made another list public than the one
around the line. -/
theorem declaration_mended_iff_suits {text : Text} {isSystemFile : Bool} {view : WorkspaceView}
    {options : Finding.Options} {d : Diagnostic} {fix : QuickFix}
    (hd : d ∈ diagnose text isSystemFile view options) (hcode : d.IsVisibility)
    (hfix : fix ∈ QuickFix.offer text [d]) :
    ∃ text' new, text.applyEdits [fix.edit] = some text' ∧
      text'.lines = text.lines.set fix.edit.range.start.line new ∧
      ((∀ e ∈ diagnose text' isSystemFile view options, e.IsVisibility →
          e.range.start.line ≠ d.range.start.line) ↔
        fix.edit.Suits text d.range.start.line) := by
  simp only [forall_visibility_iff]
  rw [QuickFix.offer, flatMap_singleton, QuickFix.forDiagnostic] at hfix
  rcases hcode with hcode | hcode
  · obtain ⟨f, hf, hcause, rfl⟩ := exists_finding_of_mem_diagnose (i := 1) rfl hd hcode (by decide)
    obtain ⟨n, raw, hn, ⟨-, hlisted, hrange⟩ | ⟨hother, -⟩⟩ := Finding.exists_listedLine hf
    · rw [hcode] at hfix
      obtain rfl := mem_singleton.mp hfix
      obtain ⟨text', new, happly, hlines, hmended⟩ := hlisted.exists_added view
      have hedit : Range.point f.range.start = text.span n (indentBytes (Code.clean raw)) 0 := by
        rw [hrange]
        rfl
      rw [← hedit] at happly
      rw [← hn] at hlines hmended
      exact ⟨text', new, happly, hlines, iff_of_true hmended (TextEdit.suits_add ..)⟩
    · rw [hcause] at hother
      cases hother
  · obtain ⟨f, hf, hcause, rfl⟩ := exists_finding_of_mem_diagnose (i := 1) rfl hd hcode (by decide)
    obtain ⟨n, raw, hn, ⟨hother, -⟩ | ⟨-, hlisted, found, hfound, hrange⟩⟩ :=
      Finding.exists_listedLine hf
    · rw [hcause] at hother
      cases hother
    · rw [hcode] at hfix
      change ∃ text' new, _ ∧ _ ∧ (¬Finding.CarriesVisibility text' view f.range.start.line ↔
        fix.edit.Suits text f.range.start.line)
      rw [hn]
      -- Two fixes are offered: one drops the `GLOBAL`, one makes a list public.
      rcases QuickFix.edit_of_mem_forGlobalNotPublic hfix with
        ⟨range, hplace, hedit⟩ | ⟨k, name, hprivate, hedit⟩
      · obtain ⟨text', new, happly, hline, hlines, hcarries⟩ :=
          hlisted.exists_removed hfound hrange hplace view
        rw [hedit, TextEdit.suits_remove_iff hlisted.line, hline]
        exact ⟨text', new, happly, hlines, by rw [hcarries, Bool.not_eq_true]⟩
      · have hglobal := Option.isSome_iff_exists.mpr ⟨found, hfound⟩
        obtain ⟨text', new, happly, hline, hlines, hcarries⟩ :=
          hlisted.exists_published hglobal hprivate view
        rw [hedit, TextEdit.suits_publish_iff, hline]
        exact ⟨text', new, happly, hlines, by rw [hcarries, not_not]⟩

/-- The list around the declaration is the second one, and the first one is public. -/
theorem declaration_mended_iff_suits_secondList :
    let text : Text :=
      "DEFDAT a PUBLIC\nENDDAT\n defdat $b ; PUBLIC\n DECL INT y\n CONST DECL global INT x".toList
    ∃ d ∈ diagnose text false {} {}, d.IsVisibility ∧ d.range = ⟨⟨4, 12⟩, ⟨4, 18⟩⟩ ∧
    ∃ fix ∈ QuickFix.offer text [d], fix.edit = ⟨⟨⟨2, 10⟩, ⟨2, 10⟩⟩, " PUBLIC".toList⟩ ∧
      fix.edit.Suits text d.range.start.line ∧
    ∃ text' new, text.applyEdits [fix.edit] = some text' ∧
      text'.lines = text.lines.set fix.edit.range.start.line new ∧
      ((∀ e ∈ diagnose text' false {} {}, e.IsVisibility →
          e.range.start.line ≠ d.range.start.line) ↔
        fix.edit.Suits text d.range.start.line) := by
  intro text
  obtain ⟨f, hf, hrange, hcause⟩ : ∃ f ∈ Finding.visibility (Context.ofText text {}),
      f.range = ⟨⟨4, 12⟩, ⟨4, 18⟩⟩ ∧ f.cause.code = .globalNotPublic := by decide +kernel
  have hprivate : QuickFix.privateList? text.lines = some (2, ⟨8, "$b".toList⟩) := by
    decide +kernel
  have hspan : text.span 2 10 0 = ⟨⟨2, 10⟩, ⟨2, 10⟩⟩ := by decide +kernel
  have hbetween : text.lines[3]?.all (fun raw => !Finding.boundsList (Code.clean raw)) = true := by
    decide +kernel
  have hcode : (Diagnostic.ofFinding .english f).code? = some .globalNotPublic := by
    rw [Diagnostic.code?_ofFinding, hcause]
  have hd : Diagnostic.ofFinding .english f ∈ diagnose text false {} {} :=
    mem_diagnose_of_mem_check (i := 1) rfl hf
  obtain ⟨fix, hfix, hedit⟩ := QuickFix.exists_mem_offer_publish hcode hprivate
  have hplace : fix.edit = ⟨⟨⟨2, 10⟩, ⟨2, 10⟩⟩, " PUBLIC".toList⟩ := by rw [hedit, ← hspan]; rfl
  refine ⟨_, hd, .inr hcode, hrange, fix, hfix, hplace, ?_,
    declaration_mended_iff_suits hd (.inr hcode) hfix⟩
  have hline : (Diagnostic.ofFinding .english f).range.start.line = 4 :=
    congrArg (·.start.line) hrange
  rw [hplace, hline, TextEdit.suits_publish_iff]
  refine ⟨by decide, fun i raw hlt hlt' hraw => ?_⟩
  obtain rfl : i = 3 := by
    change 2 < i at hlt
    omega
  simpa [hraw] using hbetween

/-- **Another list is made public.**  The fix takes the first private header of the document, and
the declaration stands in the second list.  It carries the same diagnostic afterwards. -/
theorem declaration_not_mended_firstList :
    let text : Text := "DEFDAT a\nENDDAT\nDEFDAT b\nDECL GLOBAL INT x\nENDDAT".toList
    ∃ d ∈ diagnose text false {} {}, d.IsVisibility ∧
    ∃ fix ∈ QuickFix.offer text [d], ∃ text', text.applyEdits [fix.edit] = some text' ∧
    ∃ e ∈ diagnose text' false {} {}, e.IsVisibility ∧
      e.range.start.line = d.range.start.line := by
  intro text
  let text' : Text := "DEFDAT a PUBLIC\nENDDAT\nDEFDAT b\nDECL GLOBAL INT x\nENDDAT".toList
  obtain ⟨f, hf, hline, hcause⟩ : ∃ f ∈ Finding.visibility (Context.ofText text {}),
      f.range.start.line = 3 ∧ f.cause.code = .globalNotPublic := by decide +kernel
  obtain ⟨f', hf', hline'⟩ : ∃ f ∈ Finding.visibility (Context.ofText text' {}),
      f.range.start.line = 3 := by decide +kernel
  have hprivate : QuickFix.privateList? text.lines = some (0, ⟨7, ['a']⟩) := by decide +kernel
  have happly : text.applyEdits [⟨text.span 0 8 0, " PUBLIC".toList⟩] = some text' := by
    decide +kernel
  have hcode : (Diagnostic.ofFinding .english f).code? = some .globalNotPublic := by
    rw [Diagnostic.code?_ofFinding, hcause]
  obtain ⟨fix, hfix, hedit⟩ := QuickFix.exists_mem_offer_publish hcode hprivate
  exact ⟨_, mem_diagnose_of_mem_check (i := 1) rfl hf,
    .inr hcode, fix, hfix, text', by rw [hedit]; exact happly,
    _, mem_diagnose_of_mem_check (i := 1) rfl hf',
    Diagnostic.isVisibility_ofFinding hf' _, hline'.trans hline.symm⟩

end KrlWorkbench
