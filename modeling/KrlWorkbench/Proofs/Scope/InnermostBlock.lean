import KrlWorkbench.Proofs.Scope.ClosedBlocks
import KrlWorkbench.Proofs.Scope.Depth

/-!
# The window of a line is the innermost block around it

A block runs from an opener to the closer that belongs to it, with a nested word between the two
(`IsBlock`).  The window of a line is found by two searches that know nothing of each other, one
upward for an opener and one downward for a closer, each with the line itself as a special case.  In
a document whose openers and closers are nested they meet at the two ends of one block, and this is
the innermost block in which the line lies (`IsInnermost`).

The argument compares any block around the line with what the searches find.  Seen from the line,
the opener of such a block has a word behind it that never comes down to it
(`IsBlock.exists_above`), and its closer has a word before it that comes down only there
(`IsBlock.exists_below`).  The nested words that the searches stop behind reach no further than
either (`length_le_of_opener`, `length_le_of_closer`).
-/

namespace KrlWorkbench.Window

open List ScopeMark

/-! ## Blocks -/

/-- The window runs from an opener to the closer that belongs to it. -/
def IsBlock (w : Window) (marks : List ScopeMark) : Prop :=
  ∃ above inner below, marks = above ++ .opener :: (inner ++ .closer :: below) ∧ Nested inner ∧
    w = ⟨above.length, above.length + 1 + inner.length⟩

/-- The window is a block in which a line lies, and every such block holds it. -/
structure IsInnermost (w : Window) (marks : List ScopeMark) (line : Nat) : Prop where
  isBlock : w.IsBlock marks
  contains : w.contains line = true
  least : ∀ v : Window, v.IsBlock marks → v.contains line = true →
    v.start ≤ w.start ∧ w.stop ≤ v.stop

variable {marks above below inner word : List ScopeMark} {m : ScopeMark} {w v : Window}
  {line up down d : Nat}

lemma contains_iff : w.contains line = true ↔ w.start ≤ line ∧ line ≤ w.stop := by
  simp [contains]

lemma IsBlock.stop_lt (h : w.IsBlock marks) : w.stop < marks.length := by
  obtain ⟨above, inner, below, rfl, -, rfl⟩ := h
  simp only [length_append, length_cons]
  omega

lemma IsInnermost.unique (hw : w.IsInnermost marks line) (hv : v.IsInnermost marks line) :
    w = v := by
  obtain ⟨hstart, hstop⟩ := hw.least v hv.isBlock hv.contains
  obtain ⟨hstart', hstop'⟩ := hv.least w hw.isBlock hw.contains
  rw [Window.mk.injEq]
  exact ⟨Nat.le_antisymm hstart' hstart, Nat.le_antisymm hstop hstop'⟩

/-! ## A block seen from a line in it -/

section Around

variable (h : v.IsBlock (above ++ m :: below)) (hcontains : v.contains above.length = true)
include h hcontains

/-- The line opens the block, or it cuts the lines behind the opener in two. -/
lemma IsBlock.exists_cut :
    ∃ outer inner rest, Nested inner ∧ v = ⟨outer.length, outer.length + 1 + inner.length⟩ ∧
      (above = outer ∧ m = .opener ∧ below = inner ++ .closer :: rest ∨
        ∃ word more, above = outer ++ .opener :: word ∧ inner = word ++ more ∧
          more ++ .closer :: rest = m :: below) := by
  obtain ⟨outer, inner, rest, heq, hinner, rfl⟩ := h
  obtain ⟨hstart, hstop⟩ := contains_iff.mp hcontains
  refine ⟨outer, inner, rest, hinner, rfl, ?_⟩
  rcases append_eq_append_iff.mp heq with ⟨more, rfl, hmore⟩ | ⟨more, rfl, hmore⟩
  · obtain rfl : more = [] := by
      rw [← length_eq_zero_iff]
      simp only [length_append] at hstart
      omega
    obtain ⟨hm, hbelow⟩ := List.cons.inj hmore
    exact .inl ⟨by simp, hm, hbelow⟩
  · cases more with
    | nil =>
      obtain ⟨hm, hbelow⟩ := List.cons.inj hmore
      exact .inl ⟨by simp, hm.symm, hbelow.symm⟩
    | cons first word =>
      obtain ⟨rfl, htail⟩ := List.cons.inj hmore
      have hlength : word.length ≤ inner.length := by
        simp only [length_append, length_cons] at hstop
        omega
      obtain ⟨more, rfl⟩ : word <+: inner :=
        prefix_of_prefix_length_le ⟨_, htail.symm⟩ (prefix_append _ _) hlength
      rw [append_assoc] at htail
      exact .inr ⟨word, more, rfl, rfl, append_cancel_left htail⟩

/-- The line opens the block, or the opener stands above it with a word behind it that leaves the
block open. -/
lemma IsBlock.exists_above :
    m = .opener ∨ ∃ outer word d, above = outer ++ .opener :: word ∧ depthAfter 0 word = some d ∧
      v.start = outer.length := by
  obtain ⟨outer, inner, rest, hinner, rfl, ⟨-, hm, -⟩ | ⟨word, more, rfl, rfl, -⟩⟩ :=
    h.exists_cut hcontains
  · exact .inl hm
  · obtain ⟨d, hd, -⟩ := exists_depthAfter_of_append (hinner.depthAfter_eq 0)
    exact .inr ⟨outer, word, d, rfl, hd, rfl⟩

/-- The line closes the block, or the closer stands below it with a word before it that comes down
to it. -/
lemma IsBlock.exists_below :
    m = .closer ∨ ∃ word rest d, below = word ++ .closer :: rest ∧ depthAfter d word = some 0 ∧
      v.stop = above.length + 1 + word.length := by
  obtain ⟨outer, inner, rest, hinner, rfl, ⟨rfl, -, rfl⟩ | ⟨word, more, rfl, rfl, hmore⟩⟩ :=
    h.exists_cut hcontains
  · exact .inr ⟨inner, rest, 0, rfl, hinner.depthAfter_eq 0, rfl⟩
  · cases more with
    | nil => exact .inl (List.cons.inj hmore).1.symm
    | cons first more =>
      obtain ⟨rfl, rfl⟩ := List.cons.inj hmore
      obtain ⟨d, -, hd⟩ := exists_depthAfter_of_append (hinner.depthAfter_eq 0)
      rw [← singleton_append] at hd
      obtain ⟨e, -, he⟩ := exists_depthAfter_of_append hd
      refine .inr ⟨more, rest, e, rfl, he, ?_⟩
      simp only [length_append, length_cons]
      omega

end Around

/-! ## What the searches find -/

lemma openerFrom_eq_some_iff :
    openerFrom m above.reverse = some up ↔ m = .opener ∧ up = 0 ∨
      m ≠ .opener ∧ ∃ outer inner, above = outer ++ .opener :: inner ∧ Nested inner ∧
        up = inner.length + 1 := by
  have hsearch : (openerAbove 0 above.reverse).map (· + 1) = some up ↔
      ∃ outer inner, above = outer ++ .opener :: inner ∧ Nested inner ∧ up = inner.length + 1 := by
    rw [Option.map_eq_some_iff, openerAbove_eq]
    simp only [closerBelow_eq_some_iff]
    constructor
    · rintro ⟨_, ⟨inner, outer, heq, hinner, rfl⟩, rfl⟩
      have habove :
          above = (outer.map turned).reverse ++ .opener :: (inner.map turned).reverse := by
        have hback := congrArg (fun word => (word.map turned).reverse) heq
        rw [map_turned_turned, reverse_reverse] at hback
        simpa [turned] using hback
      refine ⟨_, _, habove, nested_iff.mpr (depthAfter_of_turned ?_), by simp⟩
      rwa [reverse_reverse, map_turned_turned]
    · rintro ⟨outer, inner, rfl, hinner, rfl⟩
      refine ⟨inner.length, ⟨inner.reverse.map turned, outer.reverse.map turned, ?_, ?_, ?_⟩, rfl⟩
      · simp [turned]
      · exact depthAfter_turned (hinner.depthAfter_eq 0)
      · simp
  cases m with
  | opener => simp [openerFrom, eq_comm]
  | closer | neither => simpa [openerFrom] using hsearch

lemma closerFrom_eq_some_iff :
    closerFrom m below = some down ↔ m = .closer ∧ down = 0 ∨
      m ≠ .closer ∧ ∃ inner rest, below = inner ++ .closer :: rest ∧ Nested inner ∧
        down = inner.length + 1 := by
  have hsearch : (closerBelow 0 below).map (· + 1) = some down ↔
      ∃ inner rest, below = inner ++ .closer :: rest ∧ Nested inner ∧ down = inner.length + 1 := by
    rw [Option.map_eq_some_iff]
    simp only [closerBelow_eq_some_iff, nested_iff]
    constructor
    · rintro ⟨_, ⟨inner, rest, rfl, hinner, rfl⟩, rfl⟩
      exact ⟨inner, rest, rfl, hinner, rfl⟩
    · rintro ⟨inner, rest, rfl, hinner, rfl⟩
      exact ⟨inner.length, ⟨inner, rest, rfl, hinner, rfl⟩, rfl⟩
  cases m with
  | closer => simp [closerFrom, eq_comm]
  | opener | neither => simpa [closerFrom] using hsearch

lemma ofMarks?_append (above : List ScopeMark) (m : ScopeMark) (below : List ScopeMark) :
    ofMarks? (above ++ m :: below) above.length =
      (openerFrom m above.reverse).map fun up =>
        ⟨above.length - up, ((closerFrom m below).map (above.length + ·)).getD
          (above.length + below.length)⟩ := by
  simp [ofMarks?]

/-- An opener with a nested word behind it is not above one whose word leaves it open. -/
lemma length_le_of_opener {outer outer' : List ScopeMark}
    (heq : outer ++ .opener :: inner = outer' ++ .opener :: word) (hinner : Nested inner)
    (hword : depthAfter 0 word = some d) : outer'.length ≤ outer.length := by
  rcases append_eq_append_iff.mp heq with ⟨more, rfl, hmore⟩ | ⟨more, rfl, -⟩
  · cases more with
    | nil => simp
    | cons first more =>
      -- The second opener would stand in the nested word and be open at its end.
      obtain ⟨rfl, rfl⟩ := List.cons.inj hmore
      obtain ⟨e, -, he⟩ := exists_depthAfter_of_append (hinner.depthAfter_eq 0)
      have hadd := depthAfter_add hword (e + 1)
      rw [depthAfter_opener] at he
      rw [Nat.zero_add, he, Option.some.injEq] at hadd
      omega
  · simp

/-- A closer with a nested word before it is not below one whose word comes down to it. -/
lemma length_le_of_closer {rest rest' : List ScopeMark}
    (heq : inner ++ .closer :: rest = word ++ .closer :: rest') (hinner : Nested inner)
    (hword : depthAfter d word = some 0) : inner.length ≤ word.length := by
  rcases append_eq_append_iff.mp heq with ⟨more, rfl, -⟩ | ⟨more, rfl, hmore⟩
  · simp
  · cases more with
    | nil => simp
    | cons first more =>
      -- The second closer would stand in the nested word and be met at depth zero.
      obtain ⟨rfl, -⟩ := List.cons.inj hmore
      obtain ⟨e, he, he'⟩ := exists_depthAfter_of_append (hinner.depthAfter_eq 0)
      have hadd := depthAfter_add he d
      rw [Nat.zero_add, hword, Option.some.injEq] at hadd
      obtain rfl : e = 0 := by omega
      simp at he'

section Around

variable (h : v.IsBlock (above ++ m :: below)) (hcontains : v.contains above.length = true)
include h hcontains

/-- The search upward stops at or below the opener of every block around the line. -/
lemma IsBlock.start_le (hup : openerFrom m above.reverse = some up) :
    v.start ≤ above.length - up := by
  rcases openerFrom_eq_some_iff.mp hup with ⟨-, rfl⟩ | ⟨hm, outer, inner, rfl, hinner, rfl⟩
  · exact (contains_iff.mp hcontains).1
  · rcases h.exists_above hcontains with hopener | ⟨outer', word, d, heq, hword, hstart⟩
    · exact absurd hopener hm
    · have hle := length_le_of_opener heq hinner hword
      simp only [length_append, length_cons]
      omega

/-- The search downward stops at or above the closer of every block around the line. -/
lemma IsBlock.le_stop (hdown : closerFrom m below = some down) :
    above.length + down ≤ v.stop := by
  rcases closerFrom_eq_some_iff.mp hdown with ⟨-, rfl⟩ | ⟨hm, inner, rest, rfl, hinner, rfl⟩
  · exact (contains_iff.mp hcontains).2
  · rcases h.exists_below hcontains with hcloser | ⟨word, rest', d, heq, hword, hstop⟩
    · exact absurd hcloser hm
    · have hle := length_le_of_closer heq hinner hword
      omega

/-- The search upward finds something if the line lies in a block. -/
lemma IsBlock.exists_openerFrom : ∃ up, openerFrom m above.reverse = some up := by
  by_cases hm : m = .opener
  · exact ⟨0, openerFrom_eq_some_iff.mpr (.inl ⟨hm, rfl⟩)⟩
  · rcases h.exists_above hcontains with hopener | ⟨outer, word, d, rfl, hword, -⟩
    · exact absurd hopener hm
    · have hback : depthAfter (d + 1) ((ScopeMark.opener :: word).reverse.map turned) = some 0 :=
        depthAfter_turned (by simpa using depthAfter_add hword 1)
      obtain ⟨inner, rest, heq, hinner, -⟩ := exists_closer_of_depthAfter hback (Nat.zero_le d)
      have hcloses : ClosesAt 0 ((outer ++ .opener :: word).reverse.map turned) inner.length := by
        refine ⟨inner, rest ++ outer.reverse.map turned, ?_, hinner, rfl⟩
        rw [reverse_append, map_append, heq]
        simp
      have hfound : openerAbove 0 (outer ++ .opener :: word).reverse = some inner.length := by
        rw [openerAbove_eq]
        exact closerBelow_eq_some_iff.mpr hcloses
      exact ⟨inner.length + 1, by cases m <;> simp_all [openerFrom]⟩

/-- A window is found for every line that lies in a block. -/
lemma exists_ofMarks?_of_isBlock : ∃ w, ofMarks? (above ++ m :: below) above.length = some w := by
  obtain ⟨up, hup⟩ := h.exists_openerFrom hcontains
  rw [ofMarks?_append, hup]
  exact ⟨_, rfl⟩

end Around

/-! ## The searches meet -/

/-- In a nested word the search downward finds something where the search upward does, and the two
ends are those of a block. -/
lemma isBlock_of_openerFrom (hnested : Nested (above ++ m :: below))
    (hup : openerFrom m above.reverse = some up) :
    ∃ down, closerFrom m below = some down ∧
      IsBlock ⟨above.length - up, above.length + down⟩ (above ++ m :: below) := by
  obtain ⟨d, habove, hbelow⟩ := exists_depthAfter_of_append (hnested.depthAfter_eq 0)
  rcases openerFrom_eq_some_iff.mp hup with ⟨rfl, rfl⟩ | ⟨hm, outer, inner, rfl, hinner, rfl⟩
  · -- The line opens a block, and its closer follows.
    obtain ⟨inner, rest, rfl, hinner, -⟩ := exists_closer_of_depthAfter hbelow (Nat.zero_le d)
    rw [← nested_iff] at hinner
    refine ⟨inner.length + 1,
      closerFrom_eq_some_iff.mpr (.inr ⟨by simp, inner, rest, rfl, hinner, rfl⟩),
      above, inner, rest, rfl, hinner, ?_⟩
    rw [Window.mk.injEq]
    omega
  · cases m with
    | opener => exact absurd rfl hm
    | closer =>
      refine ⟨0, closerFrom_eq_some_iff.mpr (.inl ⟨rfl, rfl⟩), outer, inner, below, by simp,
        hinner, ?_⟩
      rw [Window.mk.injEq, length_append, length_cons]
      omega
    | neither =>
      -- Behind the nested word the block is still open, so that its closer follows.
      obtain ⟨e, -, he⟩ := exists_depthAfter_of_append habove
      rw [depthAfter_opener, hinner.depthAfter_eq, Option.some.injEq] at he
      rw [← he, depthAfter_neither] at hbelow
      obtain ⟨inner', rest, rfl, hinner', -⟩ := exists_closer_of_depthAfter hbelow (Nat.zero_le e)
      rw [← nested_iff] at hinner'
      have hwhole : Nested (inner ++ .neither :: inner') := by
        rw [nested_iff, depthAfter_append, hinner.depthAfter_eq, Option.bind_some,
          depthAfter_neither, hinner'.depthAfter_eq]
      refine ⟨inner'.length + 1,
        closerFrom_eq_some_iff.mpr (.inr ⟨by simp, inner', rest, rfl, hinner', rfl⟩),
        outer, _, rest, by simp, hwhole, ?_⟩
      simp only [Window.mk.injEq, length_append, length_cons]
      omega

/-- The window that is found is the innermost block. -/
lemma isInnermost_of_ofMarks? (hnested : Nested (above ++ m :: below))
    (h : ofMarks? (above ++ m :: below) above.length = some w) :
    w.IsInnermost (above ++ m :: below) above.length := by
  rw [ofMarks?_append] at h
  obtain ⟨up, hup, rfl⟩ := Option.map_eq_some_iff.mp h
  obtain ⟨down, hdown, hblock⟩ := isBlock_of_openerFrom hnested hup
  rw [hdown, Option.map_some, Option.getD_some]
  refine ⟨hblock, contains_iff.mpr ⟨Nat.sub_le _ _, Nat.le_add_right _ _⟩, fun v hv hcontains => ?_⟩
  exact ⟨hv.start_le hcontains hup, hv.le_stop hcontains hdown⟩

/-! ## Documents, nested or not -/

lemma exists_append_of_lt (h : line < marks.length) :
    ∃ above m below, marks = above ++ m :: below ∧ line = above.length :=
  ⟨marks.take line, marks[line], marks.drop (line + 1), by simp, by simp [Nat.le_of_lt h]⟩

/-- The window around a line starts at an opener, and all of it lies in the document. -/
lemma bounds_of_ofMarks? (h : ofMarks? marks line = some w) :
    w.start ≤ line ∧ line ≤ w.stop ∧ w.stop < marks.length ∧ marks[w.start]? = some .opener := by
  by_cases hlt : line < marks.length
  · obtain ⟨above, m, below, rfl, rfl⟩ := exists_append_of_lt hlt
    rw [ofMarks?_append] at h
    obtain ⟨up, hup, rfl⟩ := Option.map_eq_some_iff.mp h
    refine ⟨Nat.sub_le _ _, ?_, ?_, ?_⟩
    · cases closerFrom m below <;> simp
    · cases hdown : closerFrom m below with
      | none => simp
      | some down =>
        rcases closerFrom_eq_some_iff.mp hdown with ⟨-, rfl⟩ | ⟨-, inner, rest, rfl, -, rfl⟩ <;>
          simp
    · rcases openerFrom_eq_some_iff.mp hup with ⟨rfl, rfl⟩ | ⟨-, outer, inner, rfl, -, rfl⟩ <;> simp
  · rw [ofMarks?, drop_eq_nil_of_le (Nat.le_of_not_lt hlt)] at h
    cases h

/-- **The window of a line is the innermost block around it.**  If the openers and closers of the
lines are nested, the window is the innermost block in which the line lies, and there is none for a
line outside all blocks.  Whatever the lines, a window holds its line, ends within the lines, and
begins at an opener. -/
theorem around?_eq_innermost_block (lines : List Text) (line : Nat) :
    (Nested (lines.map ScopeMark.ofLine) →
      (∀ w, around? lines line = some w ↔ w.IsInnermost (lines.map ScopeMark.ofLine) line) ∧
      (around? lines line = none ↔
        ∀ w : Window, w.IsBlock (lines.map ScopeMark.ofLine) → w.contains line = false)) ∧
    ∀ w, around? lines line = some w →
      w.start ≤ line ∧ line ≤ w.stop ∧ w.stop < lines.length ∧
        ∃ opener, lines[w.start]? = some opener ∧
          LineRule.scopeOpener.holds (Code.codePart opener) = true := by
  refine ⟨fun hnested => ?_, fun w h => ?_⟩
  · have hsound : ∀ w, around? lines line = some w →
        w.IsInnermost (lines.map ScopeMark.ofLine) line := by
      intro w h
      obtain ⟨hstart, hstop, hlt, -⟩ := bounds_of_ofMarks? h
      obtain ⟨above, m, below, hmarks, rfl⟩ := exists_append_of_lt (Nat.lt_of_le_of_lt hstop hlt)
      rw [around?, hmarks] at h
      rw [hmarks] at hnested ⊢
      exact isInnermost_of_ofMarks? hnested h
    -- A block around the line stops both searches, though perhaps at inner ends.
    have hcomplete : ∀ v : Window, v.IsBlock (lines.map ScopeMark.ofLine) →
        v.contains line = true → ∃ w, around? lines line = some w := by
      intro v hv hcontains
      obtain ⟨above, m, below, hmarks, rfl⟩ :=
        exists_append_of_lt (Nat.lt_of_le_of_lt (contains_iff.mp hcontains).2 hv.stop_lt)
      rw [hmarks] at hv
      rw [around?, hmarks]
      exact exists_ofMarks?_of_isBlock hv hcontains
    refine ⟨fun w => ⟨hsound w, fun hw => ?_⟩, fun hnone w hw => ?_, fun hout => ?_⟩
    · obtain ⟨w', hw'⟩ := hcomplete w hw.isBlock hw.contains
      rw [hw', (hsound w' hw').unique hw]
    · rw [Bool.eq_false_iff]
      intro hcontains
      obtain ⟨w', hw'⟩ := hcomplete w hw hcontains
      rw [hnone] at hw'
      cases hw'
    · rw [Option.eq_none_iff_forall_not_mem]
      intro w hw
      have hinner := hsound w hw
      exact absurd hinner.contains (by simp [hout w hinner.isBlock])
  · obtain ⟨hstart, hstop, hlt, hopener⟩ := bounds_of_ofMarks? h
    rw [length_map] at hlt
    rw [getElem?_map, Option.map_eq_some_iff] at hopener
    obtain ⟨opener, hline, hmark⟩ := hopener
    exact ⟨hstart, hstop, hlt, opener, hline, ScopeMark.ofLine_eq_opener.mp hmark⟩

/-- A routine in a data list.  The statement lies in both and its window is the routine, the closer
of the data list ends the window of its own line, and the last line lies in no block. -/
theorem around?_eq_innermost_block_routine :
    let lines : List Text :=
      ["DEFDAT d PUBLIC", "DEF a()", "HALT", "END", "ENDDAT", "x"].map (·.toList)
    Nested (lines.map ScopeMark.ofLine) ∧
      (around? lines 2 = some ⟨1, 3⟩ ∧
        IsInnermost ⟨1, 3⟩ (lines.map ScopeMark.ofLine) 2) ∧
      (around? lines 4 = some ⟨0, 4⟩ ∧
        IsInnermost ⟨0, 4⟩ (lines.map ScopeMark.ofLine) 4) ∧
      ∀ w : Window, w.IsBlock (lines.map ScopeMark.ofLine) → w.contains 5 = false := by
  intro lines
  have hnested : Nested (lines.map ScopeMark.ofLine) := nested_iff.mpr (by decide +kernel)
  have hroutine : around? lines 2 = some ⟨1, 3⟩ := by decide +kernel
  have hdata : around? lines 4 = some ⟨0, 4⟩ := by decide +kernel
  have hout : around? lines 5 = none := by decide +kernel
  exact ⟨hnested,
    ⟨hroutine, (((around?_eq_innermost_block lines 2).1 hnested).1 _).mp hroutine⟩,
    ⟨hdata, (((around?_eq_innermost_block lines 4).1 hnested).1 _).mp hdata⟩,
    ((around?_eq_innermost_block lines 5).1 hnested).2.mp hout⟩

end KrlWorkbench.Window
