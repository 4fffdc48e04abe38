import KrlWorkbench.Proofs.Code.CursorWords
import KrlWorkbench.Proofs.Service.CallConverse
import KrlWorkbench.Proofs.Service.TypedPlaces
import KrlWorkbench.Service.CallHelp

/-!
# The call that is being typed

Two counters read the line up to a position.  One goes back to the parenthesis that is still open
and counts round brackets only; the other goes on from there and counts brackets of all kinds, to
tell which commas separate arguments.  They agree on arguments in which brackets are nested: each
leaves an argument at the depth at which it came to it (`beforeOpen_append`, `commas_append`).
-/

namespace KrlWorkbench

open List Code ScopeMark Text

namespace CallHelp

variable {t rest : Text} {d e : Nat}

/-! ## The two counters -/

/-- The bracketing of a text by parentheses alone. -/
def roundMark (c : Char) : ScopeMark :=
  if c = '(' then .opener else if c = ')' then .closer else .neither

/-- The search for the open parenthesis reads backwards, so a closing one comes first. -/
lemma beforeOpen_append (h : depthAfter d (t.map fun c => (roundMark c).turned) = some e) :
    beforeOpen d (t ++ rest) = beforeOpen e rest := by
  induction t generalizing d with
  | nil =>
    obtain rfl : d = e := by simpa using h
    rfl
  | cons c t ih =>
    rw [map_cons, roundMark] at h
    by_cases hclose : c = ')'
    · subst hclose
      simpa [beforeOpen] using ih (by simpa [turned] using h)
    by_cases hopen : c = '('
    · subst hopen
      cases d with
      | zero => simp [turned] at h
      | succ d => simpa [beforeOpen] using ih (by simpa [turned] using h)
    · simp only [hclose, hopen, if_false, turned, depthAfter_neither] at h
      simpa [beforeOpen, hclose, hopen] using ih h

lemma commas_cons (depth : Int) (c : Char) (rest : Text) :
    commas depth (c :: rest) =
      if ListItem.isOpening c then commas (depth + 1) rest
      else if ListItem.isClosing c then commas (depth - 1) rest
      else if c == ',' && depth == 0 then commas depth rest + 1
      else commas depth rest := by
  have hopening : (c == '(' || c == '[' || c == '\x7b') = ListItem.isOpening c := by
    rw [ListItem.isOpening, Bool.or_comm _ (c == '('), Bool.or_assoc]
  have hclosing : (c == ')' || c == ']' || c == '\x7d') = ListItem.isClosing c := by
    rw [ListItem.isClosing, Bool.or_comm _ (c == ')'), Bool.or_assoc]
  rw [commas, hopening, hclosing]

/-- A comma inside brackets separates no arguments. -/
lemma commas_append (hdepth : depthAfter d (t.map bracketMark) = some e)
    (hcomma : ∀ u v, t = u ++ ',' :: v → depthAfter d (u.map bracketMark) ≠ some 0) :
    commas d (t ++ rest) = commas e rest := by
  -- On the text; the counter stays at the depth that the brackets give.
  induction t generalizing d with
  | nil =>
    obtain rfl : d = e := by simpa using hdepth
    rfl
  | cons c t ih =>
    have hnext : ∀ d', (∀ word, depthAfter d (bracketMark c :: word) = depthAfter d' word) →
        commas d' (t ++ rest) = commas e rest := fun d' hstep =>
      ih (by rw [← hstep, ← map_cons, hdepth]) fun u v huv => by
        rw [← hstep, ← map_cons]
        exact hcomma (c :: u) v (by rw [huv, cons_append])
    rw [cons_append, commas_cons]
    by_cases hopening : ListItem.isOpening c = true
    · rw [if_pos hopening]
      exact hnext (d + 1) (by simp [bracketMark, hopening])
    rw [if_neg hopening]
    by_cases hclosing : ListItem.isClosing c = true
    · cases d with
      | zero => simp [bracketMark, hopening, hclosing] at hdepth
      | succ d =>
        rw [if_pos hclosing, Int.natCast_succ, Int.add_sub_cancel]
        exact hnext d (by simp [bracketMark, hopening, hclosing])
    · have hnot : ¬(c = ',' ∧ d = 0) := by
        rintro ⟨rfl, rfl⟩
        exact hcomma [] t rfl rfl
      rw [if_neg hclosing, if_neg (by simpa using hnot)]
      exact hnext d (by simp [bracketMark, hopening, hclosing])

/-! ## Arguments -/

/-- The text is an argument: its brackets are nested, its parentheses by themselves too, and its
commas are in brackets; what stands in strings counts as blank. -/
@[mk_iff] structure IsArgument (t : Text) : Prop extends IsEnclosed t where
  round : Nested ((mask t).map roundMark)
  commas : EnclosesCommas t

instance (t : Text) : Decidable (IsArgument t) :=
  decidable_of_iff _ (isArgument_iff t).symm

/-- Arguments that a comma follows, and one that is being typed. -/
def argumentList (args : List Text) (last : Text) : Text :=
  args.flatMap (· ++ [',']) ++ last

variable {args : List Text} {last : Text}

/-- **Both counters read a list of arguments**, to its front and to its end. -/
lemma read_argumentList (hargs : ∀ a ∈ args, IsArgument a) (hlast : IsArgument last) :
    IsCode (argumentList args last) ∧ commas 0 (mask (argumentList args last)) = args.length ∧
      ∀ back, beforeOpen 0 ((mask (argumentList args last)).reverse ++ back) =
        beforeOpen 0 back := by
  -- Both counters leave an argument at depth zero.
  have hskip : ∀ {a : Text}, IsArgument a → (∀ rest, commas 0 (mask a ++ rest) = commas 0 rest) ∧
      ∀ back, beforeOpen 0 ((mask a).reverse ++ back) = beforeOpen 0 back := by
    intro a ha
    refine ⟨fun rest => ?_, fun back => beforeOpen_append ?_⟩
    · exact commas_append (d := 0) (ha.brackets.depthAfter_eq 0) fun u v => ha.commas.depthAfter_ne
    · have hturned := depthAfter_turned (ha.round.depthAfter_eq 0)
      rwa [← map_reverse, map_map] at hturned
  induction args with
  | nil =>
    have hcount := (hskip hlast).1 []
    rw [append_nil] at hcount
    exact ⟨hlast.toIsCode, hcount, (hskip hlast).2⟩
  | cons a args ih =>
    obtain ⟨hcode, hcount, hback⟩ := ih (forall_mem_cons.mp hargs).2
    have ha := hargs a mem_cons_self
    have hcomma : IsCode [','] := isCode_of_forall (by decide)
    have hlist : argumentList (a :: args) last = a ++ ([','] ++ argumentList args last) := by
      simp [argumentList]
    have hmask : mask (argumentList (a :: args) last) =
        mask a ++ ',' :: mask (argumentList args last) := by
      rw [hlist, ha.mask_append, hcomma.mask_append]
      rfl
    refine ⟨hlist ▸ ha.toIsCode.append (hcomma.append hcode), ?_, fun back => ?_⟩
    · rw [hmask, (hskip ha).1, commas_cons]
      simp [ListItem.isOpening, ListItem.isClosing, hcount]
    · rw [hmask, reverse_append, reverse_cons, append_assoc, append_assoc, hback]
      simp [beforeOpen, (hskip ha).2]

/-! ## Calls -/

/-- A call whose last argument is being typed, with what stands before it in its line. -/
structure OpenCall where
  lead : Text
  name : Text
  gap : Text
  /-- The arguments that a comma follows. -/
  args : List Text
  last : Text
  isCode_lead : IsCode lead
  /-- Nothing in front lengthens the name. -/
  apart : lead.getLast?.all (fun c => isAscii c && !isNameChar c) = true
  isIdentifier_name : isIdentifier name = true
  isBlanks_gap : IsBlanks gap
  noBreak_gap : NoBreak gap
  isArgument_of_mem : ∀ a ∈ args, IsArgument a
  isArgument_last : IsArgument last

namespace OpenCall

/-- The line up to the place at which is being typed. -/
def print (call : OpenCall) : Text :=
  call.lead ++ (call.name ++ (call.gap ++ ('(' :: argumentList call.args call.last)))

variable (call : OpenCall)

lemma isCode_print : IsCode call.print ∧ mask call.print =
    mask call.lead ++
      (call.name ++ (call.gap ++ ('(' :: mask (argumentList call.args call.last)))) := by
  have hname := (isWord_of_isIdentifier call.isIdentifier_name).isCode
  have hgap := isCode_of_isBlank_or_isWordChar (fun c hc => .inl (call.isBlanks_gap c hc))
    call.noBreak_gap
  have hparen : IsCode ['('] := isCode_of_forall (by decide)
  have hargs := (read_argumentList call.isArgument_of_mem call.isArgument_last).1
  refine ⟨call.isCode_lead.append (hname.append (hgap.append (hparen.append hargs))), ?_⟩
  have hquote : '"' ∉ call.gap := fun hmem => absurd (call.isBlanks_gap _ hmem) (by decide)
  have hmask : ∀ {a : Text}, '"' ∉ a → mask a = a := maskFrom_false_of_not_mem
  rw [print, call.isCode_lead.mask_append, hname.mask_append, hgap.mask_append, hmask hquote,
    hmask (quote_notMem_of_isIdentifier call.isIdentifier_name), ← singleton_append,
    hparen.mask_append]
  rfl

/-- Blanking out strings puts no character of a name in front of the name. -/
lemma reverse_mask_lead : (mask call.lead).reverse = [] ∨
    ∃ c back, (mask call.lead).reverse = c :: back ∧ isAscii c = true ∧ isNameChar c = false := by
  have hapart := call.apart
  rcases eq_nil_or_concat call.lead with hnil | ⟨front, c, hlead⟩
  · exact .inl (by rw [hnil]; rfl)
  · rw [hlead, concat_eq_append, getLast?_concat, Option.all_some, Bool.and_eq_true,
      Bool.not_eq_true'] at hapart
    rw [hlead, concat_eq_append, mask, maskFrom_append, maskFrom_cons, reverse_append]
    refine .inr ⟨_, _, rfl, ?_⟩
    rw [maskChar]
    split_ifs
    · decide
    · decide
    · exact hapart

lemma nameBefore_eq :
    nameBefore (mask call.lead ++ (call.name ++ call.gap)).reverse = .ok call.name := by
  have hname : ∀ c ∈ call.name.reverse, isNameChar c = true :=
    fun c hc => isNameChar_of_isIdentifier call.isIdentifier_name c (mem_reverse.mp hc)
  have hgap : ∀ c ∈ call.gap.reverse, isBlank c = true :=
    fun c hc => call.isBlanks_gap c (mem_reverse.mp hc)
  have hsolid : (call.name.reverse ++ (mask call.lead).reverse).head?.any isBlank = false := by
    obtain ⟨c, back, hback⟩ := exists_cons_of_ne_nil
      (reverse_ne_nil_iff.mpr (ne_nil_of_isIdentifier call.isIdentifier_name))
    rw [hback] at hname ⊢
    exact isBlank_of_isWordChar (isWordChar_of_isNameChar (hname c mem_cons_self))
  rw [reverse_append, reverse_append, append_assoc, nameBefore,
    (CursorWord.takeWhile_append_of_head hgap hsolid).2]
  rcases call.reverse_mask_lead with hnil | ⟨c, back, hback, hascii, hc⟩
  · simp [hnil, dropWhile_eq_nil_iff.mpr hname]
  · obtain ⟨htake, hdrop⟩ := CursorWord.takeWhile_append_of_head (b := c :: back) hname hc
    rw [hback]
    simp only [htake, hdrop, hascii, if_true, reverse_reverse]

end OpenCall

/-- **Help with the call that is being typed.**  Behind a name that the document declares as a
routine, an opening parenthesis, arguments that commas follow and a part of one more, the help is
the header of that routine, and the argument at hand is the one behind the last of these commas. -/
theorem callHelp_of_openCall {text rest : Text} {n : Nat} {r : Routine} (call : OpenCall)
    (view : WorkspaceView) (hline : text.lines[n]? = some (call.print ++ rest))
    (hr : r ∈ (SymbolTable.collect text).routines) (hname : sameName r.name call.name = true)
    (hkeyword : Keyword.isKeyword call.name = false) :
    callHelp text ⟨n, unitLength call.print⟩ view =
      .ok (some ⟨r.label, r.params.map (·.raw), none, call.args.length⟩) := by
  obtain ⟨hcode, hmask⟩ := call.isCode_print
  obtain ⟨-, hcount, hback⟩ := read_argumentList call.isArgument_of_mem call.isArgument_last
  have hsplit : mask call.print = (mask call.lead ++ (call.name ++ call.gap)) ++
      '(' :: mask (argumentList call.args call.last) := by
    rw [hmask]
    simp
  have hopen : beforeOpen 0 (mask call.print).reverse =
      some (mask call.lead ++ (call.name ++ call.gap)).reverse := by
    rw [hsplit, reverse_append, reverse_cons, append_assoc, hback]
    simp [beforeOpen]
  have hargs : (mask call.print).drop
      ((mask call.lead ++ (call.name ++ call.gap)).reverse.length + 1) =
        mask (argumentList call.args call.last) := by
    rw [hsplit, length_reverse, drop_length_add_append]
    rfl
  have hempty : call.name.isEmpty = false := by
    simpa using ne_nil_of_isIdentifier call.isIdentifier_name
  have hhelp : ofName? (SymbolTable.collect text) view call.name call.args.length =
      some ⟨r.label, r.params.map (·.raw), none, call.args.length⟩ := by
    rw [ofName?, hempty, hkeyword, CallGraph.routine?_eq_some hr hname]
    rfl
  simp only [callHelp, Place.at?_of_lines hline, Place.before_mk, hcode.commentStart_eq, hopen,
    call.nameBefore_eq, hargs, hcount]
  exact congrArg Except.ok hhelp

/-- Nested calls, an index and an aggregate among the arguments, and a string with brackets and
commas; in front of the call stands another one that is open. -/
theorem callHelp_of_openCall_nested :
    let typed : Text := "  x = f(a, Move (p[1, 2], g(\"(,\", b), \x7bX 1, Y 2\x7d, c".toList
    let text : Text :=
      "DEF main()\n".toList ++ typed ++ "\nEND\nDEF move(p:IN, q:OUT)\nEND".toList
    callHelp text ⟨1, unitLength typed⟩ {} =
      .ok (some ⟨"DEF move(p:IN, q:OUT)".toList, ["p:IN".toList, "q:OUT".toList], none, 3⟩) := by
  intro typed text
  let call : OpenCall :=
    { lead := "  x = f(a, ".toList
      name := "Move".toList
      gap := [' ']
      args := ["p[1, 2]".toList, " g(\"(,\", b)".toList, " \x7bX 1, Y 2\x7d".toList]
      last := " c".toList
      isCode_lead := by decide +kernel
      apart := by decide +kernel
      isIdentifier_name := by decide +kernel
      isBlanks_gap := isBlanks_space
      noBreak_gap := by decide +kernel
      isArgument_of_mem := by decide +kernel
      isArgument_last := by decide +kernel }
  let move : Routine := .ofParts text 3 false none ⟨4, "move".toList⟩ "p:IN, q:OUT".toList
  have hprint : call.print = typed := by decide +kernel
  have hline : text.lines[1]? = some (call.print ++ []) := by
    rw [hprint]
    decide +kernel
  have hmove : move ∈ (SymbolTable.collect text).routines := by decide +kernel
  have hhelp := callHelp_of_openCall call {} hline hmove (by decide +kernel) (by decide +kernel)
  rw [hprint] at hhelp
  have hlabel : move.label = "DEF move(p:IN, q:OUT)".toList ∧
      move.params.map (·.raw) = ["p:IN".toList, "q:OUT".toList] := by
    decide +kernel
  rwa [hlabel.1, hlabel.2] at hhelp

end CallHelp
end KrlWorkbench
