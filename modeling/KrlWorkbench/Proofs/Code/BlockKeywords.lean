import KrlWorkbench.Proofs.Code.FrontWords

/-!
# Block keywords in a line

Where the block keywords of a line stand, and that blanks around its code move them all together
(`BlockEvent.ofLine_surrounded`): the bytes in front are added to every column, and nothing else
happens.  For closers this follows from reading the code word by word.  For openers it follows from
what their pattern asks of a line (`BlockKind.OpensUpTo`), which leaves no choice of where the
opener ends.  A sort by column does not see a shift of all columns.

The cleaned code of a line is that of the trimmed line with blanks around it
(`Code.exists_clean_eq`), so the keywords of a line are those of the trimmed one.
-/

namespace KrlWorkbench

open List BlockKind Text

variable {a tail lead w x g code : Text} {stop : Nat} {kind : BlockKind}

/-! ## Closers -/

namespace Pattern

lemma wordsFrom_add (x : Text) (lead here : Nat) (links : List Link) :
    (wordsFrom x (lead + here) links).map (·.start) =
      ((wordsFrom x here links).map (·.start)).map (lead + ·) := by
  induction links generalizing here with
  | nil => rfl
  | cons link links ih =>
    cases link with
    | sep c =>
      rw [wordsFrom, wordsFrom, Nat.add_assoc]
      exact ih _
    | word w w' =>
      rw [wordsFrom, wordsFrom, map_append, map_append, map_append, Nat.add_assoc, ih]
      split <;> rfl

/-- Blanks around a text move the whole words in it by the bytes in front. -/
lemma map_start_occurrences_surrounded (hx : isIdentifier x = true) (hlead : IsBlanks lead)
    (htail : IsBlanks tail) (core : Text) :
    ((wholeWord x).occurrences (lead ++ (core ++ tail))).map (·.whole.start) =
      ((wholeWord x).occurrences core).map (byteLength lead + ·.whole.start) := by
  have hwords : ∀ {text : Text} {links : List Link}, Aligned x x links → oldText links = text →
      ((wholeWord x).occurrences text).map (·.whole.start) =
        (wordsFrom x 0 links).map (·.start) := by
    rintro _ links h rfl
    rw [← map_whole_occurrences hx h, map_map]
    rfl
  obtain ⟨links, haligned, rfl, -⟩ := exists_links x x false false core
  have houter : oldText (separators lead ++ (links ++ separators tail)) =
      lead ++ (oldText links ++ tail) := by
    rw [oldText_append, oldText_append, oldText_separators, oldText_separators]
  have hbehind : Aligned x x (links ++ separators tail) := by
    refine haligned.append (aligned_separators htail) (.inr ?_)
    rw [oldText_separators]
    exact startsWord_of_isBlanks htail
  have hinner := congrArg (List.map (byteLength lead + ·)) (hwords haligned rfl)
  rw [hwords (aligned_separators_append hlead hbehind) houter, wordsFrom_separators_append,
    wordsFrom_append, wordsFrom_separators, append_nil, Nat.zero_add,
    ← Nat.add_zero (byteLength lead), wordsFrom_add, Nat.add_zero, ← hinner, map_map]
  rfl

end Pattern

/-! ## Openers -/

namespace BlockKind

open Pattern

/-- What may stand between the indentation and an opener: nothing, or for a routine `GLOBAL` and a
gap. -/
def IsLead (kind : BlockKind) (g : Text) : Prop :=
  g = [] ∨ (kind = .routine ∨ kind = .function) ∧ LineRule.Skipped "GLOBAL" g

/-- The code begins with an opener that ends at byte `stop`. -/
def OpensUpTo (kind : BlockKind) (code : Text) (stop : Nat) : Prop :=
  ∃ indent g w rest, code = indent ++ (g ++ (w ++ rest)) ∧ IsBlanks indent ∧ kind.IsLead g ∧
    sameWord kind.opener.toList w = true ∧ startsWord rest = false ∧
    stop = byteLength (indent ++ (g ++ w))

lemma isIdentifier_opener (kind : BlockKind) : isIdentifier kind.opener.toList = true := by
  cases kind <;> decide

lemma isIdentifier_closer (kind : BlockKind) : isIdentifier kind.closer.toList = true := by
  cases kind <;> decide

lemma isWord_of_opener (h : sameWord kind.opener.toList w = true) : IsWord w :=
  isWord_of_sameName kind.isIdentifier_opener h

lemma isWord_of_global (h : sameWord "GLOBAL".toList w = true) : IsWord w :=
  isWord_of_sameName (by decide) h

lemma isModifier_opener (kind : BlockKind) : isModifier kind.opener.toList = false := by
  cases kind <;> decide

lemma IsLead.modifiers (hg : kind.IsLead g) : Modifiers g := by
  rcases hg with rfl | ⟨-, hg⟩
  · exact .nil
  · exact hg.modifiers (by decide)

/-- **The opener is the first place of its keyword.** -/
lemma find?_opener {indent rest : Text} (hindent : IsBlanks indent) (hg : kind.IsLead g)
    (hw : sameWord kind.opener.toList w = true) (hrest : startsWord rest = false) :
    ∃ m, (wholeWord kind.opener.toList).find? (indent ++ (g ++ (w ++ rest))) = some m ∧
      m.whole = ⟨byteLength (indent ++ g), w⟩ :=
  hg.modifiers.exists_find? hindent kind.isIdentifier_opener kind.isModifier_opener hw hrest

lemma OpensUpTo.unique {stop' : Nat} (h : kind.OpensUpTo code stop)
    (h' : kind.OpensUpTo code stop') : stop = stop' := by
  obtain ⟨indent, g, w, rest, rfl, hindent, hg, hw, hrest, rfl⟩ := h
  obtain ⟨indent', g', w', rest', hcode, hindent', hg', hw', hrest', rfl⟩ := h'
  obtain ⟨m, hm, hwhole⟩ := find?_opener hindent hg hw hrest
  obtain ⟨m', hm', hwhole'⟩ := find?_opener hindent' hg' hw' hrest'
  rw [hcode, hm'] at hm
  rw [Option.some.inj hm, hwhole] at hwhole'
  obtain ⟨hstart, rfl⟩ := Capture.mk.inj hwhole'
  simp only [byteLength_append] at hstart ⊢
  omega

lemma OpensUpTo.opener_length_le (h : kind.OpensUpTo code stop) : kind.opener.length ≤ stop := by
  obtain ⟨indent, g, w, rest, -, -, -, hw, -, rfl⟩ := h
  have hlen : kind.opener.length = w.length := (length_eq_of_sameWord hw).symm
  have hbytes := length_le_byteLength w
  rw [byteLength_append, byteLength_append]
  omega

/-- Blanks around the code move the end of its opener by the bytes in front. -/
lemma opensUpTo_surrounded {core : Text} (hlead : IsBlanks lead) (htail : IsBlanks tail) :
    kind.OpensUpTo (lead ++ (core ++ tail)) stop ↔
      ∃ stop', kind.OpensUpTo core stop' ∧ stop = byteLength lead + stop' := by
  constructor
  · rintro ⟨indent, g, w, rest, heq, hindent, hg, hw, hrest, rfl⟩
    have hstarts := hg.modifiers.startsWord_append (isWord_of_opener hw) rest
    -- The blanks in front of the opener begin with those in front of the code.
    obtain ⟨indent, rfl, hcore⟩ : ∃ indent', indent = lead ++ indent' ∧
        core ++ tail = indent' ++ (g ++ (w ++ rest)) := by
      rcases append_eq_append_iff.mp heq with ⟨more, hmore, hcore⟩ | ⟨more, hmore, hrest⟩
      · exact ⟨more, hmore, hcore⟩
      · cases more with
        | nil => exact ⟨[], by simpa using hmore.symm, by simpa using hrest.symm⟩
        | cons c more =>
          rw [hrest, cons_append, startsWord_cons] at hstarts
          have hblank := hlead c (by rw [hmore]; simp)
          simp [isWordChar_of_isBlank hblank] at hstarts
    have hends : endsWord (indent ++ (g ++ w)) = true := by
      have hw' := isWord_of_opener hw
      rw [← append_assoc, endsWord_append hw'.ne_nil, hw'.endsWord]
    obtain ⟨rest, rfl, rfl⟩ := exists_append_of_append_blanks (b := rest) hends htail
      (by rw [hcore]; simp)
    rw [startsWord_append_blanks _ htail] at hrest
    refine ⟨_, ⟨indent, g, w, rest, by simp, ?_, hg, hw, hrest, rfl⟩, ?_⟩
    · exact fun c hc => hindent c (mem_append_right _ hc)
    · simp
  · rintro ⟨stop', ⟨indent, g, w, rest, rfl, hindent, hg, hw, hrest, rfl⟩, rfl⟩
    refine ⟨lead ++ indent, g, w, rest ++ tail, by simp, forall_mem_append.mpr ⟨hlead, hindent⟩,
      hg, hw, ?_, by simp⟩
    rwa [startsWord_append_blanks _ htail]

/-- The pattern in front of an opener. -/
def leadPattern : BlockKind → Pattern
  | .routine | .function => LineRule.skip "GLOBAL"
  | _ => .empty

lemma openerPattern_eq (kind : BlockKind) :
    kind.openerPattern =
      .textStart ++ .blanks ++ kind.leadPattern ++ .keyword kind.opener ++ .wordBoundary := by
  cases kind <;> rfl

lemma isLead_of_fits {here : Cursor} {v : Text} {found : Groups}
    (h : Fits kind.leadPattern here g v found) : kind.IsLead g := by
  cases kind with
  | routine => exact .inr ⟨.inl rfl, LineRule.skipped_of_fits_skip h⟩
  | function => exact .inr ⟨.inr rfl, LineRule.skipped_of_fits_skip h⟩
  | _ =>
    cases h
    exact .inl rfl

lemma fits_of_isLead (h : kind.IsLead g) (here : Cursor) (v : Text) :
    Fits kind.leadPattern here g v [] := by
  rcases h with rfl | ⟨rfl | rfl, h⟩
  · cases kind with
    | routine => exact .altRight (.empty _ _)
    | function => exact .altRight (.empty _ _)
    | _ => exact .empty _ _
  · exact h.fits here v
  · exact h.fits here v

lemma opensUpTo_of_find? {m : Match} (h : kind.openerPattern.find? code = some m) :
    kind.OpensUpTo code m.whole.stop := by
  obtain ⟨a, u, v, rfl, hwhole, hfits⟩ := matches_of_find? h
  obtain ⟨u, b, _, _, rfl, -, hfits, hboundary⟩ := hfits.exists_of_append
  obtain ⟨u, w, _, _, rfl, -, hfits, hword⟩ := hfits.exists_of_append
  obtain ⟨u, g, _, _, rfl, -, hindent, hlead⟩ := hfits.exists_of_append
  obtain ⟨hbefore, hblank, -⟩ := LineRule.blank_of_fits_indent hindent
  obtain rfl : a = [] := by simpa [between] using hbefore
  have hw := hword.sameWord_of_word.1
  cases hboundary with
  | wordBoundary hboundary =>
    refine ⟨u, g, w, v, by simp, hblank, isLead_of_fits hlead, hw, ?_, ?_⟩
    · rw [isWordBoundary_skip (isWord_of_opener hw)] at hboundary
      simpa using hboundary
    · rw [Capture.stop, hwhole]
      simp

lemma exists_find?_of_opensUpTo (h : kind.OpensUpTo code stop) :
    ∃ m, kind.openerPattern.find? code = some m ∧ m.whole.stop = stop := by
  have hsome : (kind.openerPattern.find? code).isSome = true := by
    obtain ⟨indent, g, w, rest, rfl, hindent, hg, hw, hrest, -⟩ := h
    have hfits : Fits kind.openerPattern (between [] (indent ++ (g ++ (w ++ rest))))
        (indent ++ (g ++ w)) rest [] := by
      rw [openerPattern_eq]
      have hfront : Fits (.textStart ++ .blanks ++ kind.leadPattern ++ .keyword kind.opener)
          (between [] (indent ++ (g ++ (w ++ rest)))) (([] ++ indent) ++ g ++ w) ([] ++ rest)
          ([] ++ ([] ++ ([] ++ []))) :=
        .seq (.seq (.seq (.textStart rfl _) (.many _ hindent _)) (fits_of_isLead hg _ _))
          (LineRule.fits_word hw _ _)
      have hend : Fits .wordBoundary ((between [] (indent ++ (g ++ (w ++ rest)))).skip
          (([] ++ indent) ++ g ++ w) ([] ++ rest)) [] rest [] :=
        .wordBoundary (by rw [isWordBoundary_skip (isWord_of_opener hw), hrest]; rfl)
      have hall : Fits (.textStart ++ .blanks ++ kind.leadPattern ++ .keyword kind.opener ++
          .wordBoundary) _ _ _ _ := .seq hfront hend
      simpa using hall
    exact isIn_of_fits hfits (by simp)
  obtain ⟨m, hm⟩ := Option.isSome_iff_exists.mp hsome
  exact ⟨m, hm, (opensUpTo_of_find? hm).unique h⟩

end BlockKind

/-! ## The block keywords of a line -/

namespace BlockEvent

/-- The same keyword in another line, so many bytes further on. -/
def moved (line lead : Nat) (e : BlockEvent) : BlockEvent :=
  ⟨e.kind, e.opens, line, lead + e.column⟩

/-- The closers of a kind in a line. -/
def closersOf (code : Text) (line : Nat) (kind : BlockKind) : List BlockEvent :=
  (kind.closerPattern.occurrences code).map fun found => ⟨kind, false, line, found.whole.start⟩

lemma closersOf_eq (code : Text) (line : Nat) (kind : BlockKind) :
    closersOf code line kind = ((kind.closerPattern.occurrences code).map (·.whole.start)).map
      (⟨kind, false, line, ·⟩) := by
  rw [map_map]
  rfl

lemma ofKind_surrounded (hlead : IsBlanks lead) (htail : IsBlanks tail) (core : Text)
    (line line' : Nat) (kind : BlockKind) :
    ofKind (lead ++ (core ++ tail)) line kind =
      (ofKind core line' kind).map (moved line (byteLength lead)) := by
  have hclosers : closersOf (lead ++ (core ++ tail)) line kind =
      (closersOf core line' kind).map (moved line (byteLength lead)) := by
    have hcloser :=
      Pattern.map_start_occurrences_surrounded kind.isIdentifier_closer hlead htail core
    rw [closersOf_eq, closersOf_eq]
    change map _ (((Pattern.wholeWord _).occurrences _).map _) = _
    rw [hcloser, map_map, map_map, map_map]
    rfl
  change _ ++ closersOf _ line kind = map _ (_ ++ closersOf core line' kind)
  rw [map_append, hclosers]
  congr 1
  -- One of the two codes begins with the opener exactly if the other does.
  cases hcore : kind.openerPattern.find? core with
  | some m =>
    have hopens := opensUpTo_of_find? hcore
    obtain ⟨m', hm', hstop⟩ := exists_find?_of_opensUpTo
      ((opensUpTo_surrounded hlead htail).mpr ⟨_, hopens, rfl⟩)
    have hlen := hopens.opener_length_le
    rw [hm']
    simp only [map_cons, map_nil, moved, hstop]
    rw [Nat.add_sub_assoc hlen]
  | none =>
    cases hfound : kind.openerPattern.find? (lead ++ (core ++ tail)) with
    | none => rfl
    | some m =>
      have hopens := opensUpTo_of_find? hfound
      obtain ⟨stop, hstop, -⟩ := (opensUpTo_surrounded hlead htail).mp hopens
      obtain ⟨m', hm', -⟩ := exists_find?_of_opensUpTo hstop
      rw [hcore] at hm'
      simp at hm'

/-- A sort by column does not see that all columns are shifted. -/
lemma insertByColumn_moved (line lead : Nat) (e : BlockEvent) (sorted : List BlockEvent) :
    insertByColumn (e.moved line lead) (sorted.map (moved line lead)) =
      (insertByColumn e sorted).map (moved line lead) := by
  induction sorted with
  | nil => rfl
  | cons first rest ih =>
    have hlt : (e.moved line lead).column < (first.moved line lead).column ↔
        e.column < first.column := by
      simp only [moved]
      omega
    rw [map_cons, insertByColumn, insertByColumn]
    by_cases h : e.column < first.column
    · rw [if_pos h, if_pos (hlt.mpr h)]
      rfl
    · rw [if_neg h, if_neg (hlt.not.mpr h), ih]
      rfl

/-- **Blanks around a line** move its block keywords together. -/
lemma ofLine_surrounded (hlead : IsBlanks lead) (htail : IsBlanks tail) (core : Text)
    (line line' : Nat) :
    ofLine (lead ++ (core ++ tail)) line =
      (ofLine core line').map (moved line (byteLength lead)) := by
  have hevents : all.flatMap (ofKind (lead ++ (core ++ tail)) line) =
      (all.flatMap (ofKind core line')).map (moved line (byteLength lead)) := by
    rw [map_flatMap]
    congr 1
    funext kind
    exact ofKind_surrounded hlead htail core line line' kind
  have hsort : ∀ events sorted : List BlockEvent,
      (events.map (moved line (byteLength lead))).foldl
          (fun sorted event => insertByColumn event sorted)
          (sorted.map (moved line (byteLength lead))) =
        (events.foldl (fun sorted event => insertByColumn event sorted) sorted).map
          (moved line (byteLength lead)) := by
    intro events
    induction events with
    | nil => exact fun _ => rfl
    | cons e events ih =>
      intro sorted
      rw [map_cons, foldl_cons, insertByColumn_moved, ih, foldl_cons]
  rw [ofLine, ofLine, hevents]
  exact hsort _ []

/-- The kind of block, and whether the keyword opens it. -/
def shape (e : BlockEvent) : BlockKind × Bool :=
  (e.kind, e.opens)

lemma map_shape_ofLine_surrounded (hlead : IsBlanks lead) (htail : IsBlanks tail) (core : Text)
    (line line' : Nat) :
    (ofLine (lead ++ (core ++ tail)) line).map shape = (ofLine core line').map shape := by
  rw [ofLine_surrounded hlead htail core line line', map_map]
  rfl

end BlockEvent

/-! ## Cleaning a trimmed line -/

namespace Code

lemma ne_of_isBlank {c : Char} (hc : isBlank c = true) : c ≠ '"' ∧ c ≠ ';' := by
  constructor <;> (rintro rfl; exact absurd hc (by decide))

lemma not_mem_of_isBlanks (ha : IsBlanks a) : '"' ∉ a :=
  fun hmem => (ne_of_isBlank (ha _ hmem)).1 rfl

lemma codeFrom_blanks_append (hlead : IsBlanks lead) (inside : Bool) (line : Text) :
    codeFrom inside (lead ++ line) = lead ++ codeFrom inside line := by
  refine codeFrom_append_of_notMem (not_mem_of_isBlanks hlead) ?_ inside line
  exact fun hmem => (ne_of_isBlank (hlead _ hmem)).2 rfl

lemma codeFrom_append_blanks (htail : IsBlanks tail) (inside : Bool) (line : Text) :
    ∃ tail', IsBlanks tail' ∧ codeFrom inside (line ++ tail) = codeFrom inside line ++ tail' := by
  induction line generalizing inside with
  | nil => exact ⟨tail, htail, by simpa [codeFrom] using codeFrom_blanks_append htail inside []⟩
  | cons c line ih =>
    rw [cons_append, codeFrom_cons, codeFrom_cons]
    split
    · exact ⟨[], isBlanks_nil, rfl⟩
    · obtain ⟨tail', hblank, hcode⟩ := ih (insideAfter inside [c])
      exact ⟨tail', hblank, by rw [hcode, cons_append]⟩

/-- The code of a line is the code of the trimmed line with blanks around it. -/
lemma exists_clean_eq (line : Text) :
    ∃ lead tail, IsBlanks lead ∧ IsBlanks tail ∧
      clean line = lead ++ (clean (trim line) ++ tail) := by
  obtain ⟨lead, behind, hlead, hbehind, hline⟩ := exists_append_trim line
  obtain ⟨tail, htail, hcode⟩ := codeFrom_append_blanks hbehind false (trim line)
  have hquote := not_mem_of_isBlanks hlead
  refine ⟨lead, maskFrom (insideAfter false (codePart (trim line))) tail, hlead,
    forall_mem_maskFrom (by decide) (fun c hc _ => htail c hc) _, ?_⟩
  calc clean line = maskFrom false (codeFrom false (lead ++ (trim line ++ behind))) := by
        rw [← hline]
        rfl
    _ = maskFrom false (lead ++ (codePart (trim line) ++ tail)) := by
        rw [codeFrom_blanks_append hlead, hcode]
        rfl
    _ = _ := by
        rw [maskFrom_append, maskFrom_false_of_not_mem hquote, insideAfter_of_not_mem hquote,
          maskFrom_append]
        rfl

end Code

end KrlWorkbench
