import KrlWorkbench.Proofs.Text.Lines

/-!
# Positions and offsets are inverse

`offset` reads a position and `positionAt` writes one.  They are inverse to each other up to one
kind of place: between the two characters of a line end `"\r\n"` stands an offset that no position
names, since the line in front of it is over and the next one has not begun.

The proofs go through what a place is.  An offset between two characters stands in a line, behind a
part of it, or it splits a line end (`place_of_append`); a position that has an offset names a part
of a line (`exists_of_offset`).  Order and size of positions, which hold for offsets of any kind,
are facts about the walk `advance` itself.
-/

namespace KrlWorkbench

open List

variable {text a b c d l brk before rest : Text} {m n number : Nat} {p q : Position}

namespace Position

lemma le_iff :
    p.le q = true ↔ p.line < q.line ∨ p.line = q.line ∧ p.character ≤ q.character := by
  simp [Position.le]

@[simp] lemma le_refl (p : Position) : p.le p = true :=
  le_iff.mpr (.inr ⟨rfl, Nat.le_refl _⟩)

lemma le_trans {r : Position} (hpq : p.le q = true) (hqr : q.le r = true) : p.le r = true := by
  rw [le_iff] at hpq hqr ⊢
  omega

end Position

namespace Text

/-! ## Boundaries -/

lemma isBoundary_append (a b : Text) : isBoundary (byteLength a) (a ++ b) = true := by
  induction a with
  | nil => simp [isBoundary]
  | cons c a ih =>
    cases hk : byteLength (c :: a) with
    | zero => rfl
    | succ k =>
      rw [byteLength_cons] at hk
      have hsub : k + 1 - c.utf8Size = byteLength a := by omega
      rw [cons_append, isBoundary, if_pos (by omega), hsub, ih]

lemma exists_append_of_isBoundary (h : isBoundary n text = true) :
    ∃ a b, text = a ++ b ∧ n = byteLength a := by
  induction text generalizing n with
  | nil =>
    cases n with
    | zero => exact ⟨[], [], rfl, rfl⟩
    | succ n => simp [isBoundary] at h
  | cons c rest ih =>
    cases n with
    | zero => exact ⟨[], c :: rest, rfl, rfl⟩
    | succ n =>
      rw [isBoundary] at h
      split_ifs at h with hle
      obtain ⟨a, b, rfl, hlen⟩ := ih h
      refine ⟨c :: a, b, rfl, ?_⟩
      rw [byteLength_cons, ← hlen]
      omega

/-- The offset falls between the two characters of one line end. -/
def SplitsBreak (text : Text) (n : Nat) : Prop :=
  ∃ a b, text = a ++ '\r' :: '\n' :: b ∧ n = byteLength a + 1

lemma splitsBreak_append :
    SplitsBreak (a ++ b) (byteLength a) ↔ a.getLast? = some '\r' ∧ b.head? = some '\n' := by
  rw [getLast?_eq_some_iff, head?_eq_some_iff]
  constructor
  · rintro ⟨a', b', htext, hlen⟩
    have hsplit : a ++ b = (a' ++ ['\r']) ++ '\n' :: b' := by rw [htext]; simp
    have hbytes : byteLength a = byteLength (a' ++ ['\r']) := by
      rw [hlen, byteLength_append]
      rfl
    obtain ⟨ha, hb⟩ := append_inj_of_byteLength hsplit hbytes
    exact ⟨⟨a', ha⟩, b', hb⟩
  · rintro ⟨⟨a', rfl⟩, b', rfl⟩
    refine ⟨a', b', by simp, ?_⟩
    rw [byteLength_append]
    rfl

lemma NoBreak.getLast?_ne (hl : NoBreak l) : l.getLast? ≠ some '\r' := by
  intro h
  exact (hl '\r' (mem_of_getLast? h)).2 rfl

/-- Behind a line and its end the offsets that split a line end are those of what follows. -/
lemma splitsBreak_append_break (l : Text) (hbrk : IsBreak brk (d ++ b)) :
    SplitsBreak (l ++ (brk ++ (d ++ b))) (byteLength l + byteLength brk + byteLength d) ↔
      SplitsBreak (d ++ b) (byteLength d) := by
  have hsplit : l ++ (brk ++ (d ++ b)) = (l ++ (brk ++ d)) ++ b := by simp
  have hlen : byteLength l + byteLength brk + byteLength d = byteLength (l ++ (brk ++ d)) := by
    rw [byteLength_append, byteLength_append, Nat.add_assoc]
  rw [hsplit, hlen, splitsBreak_append, splitsBreak_append]
  by_cases hd : d = []
  · -- Only a carriage return alone ends with one, and no line feed follows it.
    subst hd
    have hnone : brk.getLast? = some '\r' → b.head? ≠ some '\n' := by
      rcases hbrk with rfl | rfl | ⟨rfl, hhead⟩
      · simp
      · simp
      · intro _
        exact hhead
    have hne : brk ≠ [] := by rcases hbrk with rfl | rfl | ⟨rfl, -⟩ <;> simp
    have hlast : (l ++ (brk ++ [])).getLast? = brk.getLast? := by
      rw [append_nil, getLast?_append_of_ne_nil _ hne]
    rw [hlast]
    simp only [getLast?_nil, reduceCtorEq, false_and, iff_false, not_and]
    exact hnone
  · have hlast : (l ++ (brk ++ d)).getLast? = d.getLast? := by
      rw [← append_assoc, getLast?_append_of_ne_nil _ hd]
    rw [hlast]

/-! ## Places -/

/-- What an offset between two characters names: a place in a line, behind the part `u` of it, or
a place between the two characters of the line's end. -/
inductive Place (text : Text) : Nat → Prop
  | inLine {number start : Nat} {u v : Text} (hline : text.lines[number]? = some (u ++ v))
      (hstart : lineStart number text = some start)
      (hwhole : ¬ SplitsBreak text (start + byteLength u)) : Place text (start + byteLength u)
  | inBreak {number : Nat} {before l rest : Text} (hl : NoBreak l)
      (htext : text = before ++ (l ++ '\r' :: '\n' :: rest))
      (hstart : lineStart number text = some (byteLength before)) :
      Place text (byteLength before + byteLength l + 1)

/-- A proper part of a break is the first character of a line end with two. -/
lemma IsBreak.eq_of_append (hbrk : IsBreak brk rest) (h : brk = c ++ d) (hc : c ≠ [])
    (hd : d ≠ []) : c = ['\r'] ∧ d = ['\n'] := by
  obtain ⟨x, c, rfl⟩ := exists_cons_of_ne_nil hc
  obtain ⟨y, d, rfl⟩ := exists_cons_of_ne_nil hd
  rcases hbrk with rfl | rfl | ⟨rfl, -⟩
  · simp at h
  · cases c with
    | nil => simpa [eq_comm] using h
    | cons z c => simp at h
  · simp at h

/-- A place behind a line and its end is a place of what follows. -/
lemma Place.append_break (hl : NoBreak l) (hbrk : IsBreak brk (d ++ b))
    (h : Place (d ++ b) (byteLength d)) :
    Place (l ++ (brk ++ (d ++ b))) (byteLength l + byteLength brk + byteLength d) := by
  have hsplits := splitsBreak_append_break l hbrk
  generalize byteLength d = n at h hsplits ⊢
  cases h with
  | @inLine number start u v hline hstart hwhole =>
    rw [← Nat.add_assoc] at hsplits ⊢
    refine @Place.inLine _ (number + 1) _ u v ?_ ?_ (fun h => hwhole (hsplits.mp h))
    · rw [lines_append_break hl hbrk, getElem?_cons_succ, hline]
    · rw [lineStart_succ_append_break hl hbrk, hstart, Option.map_some]
  | @inBreak number before l' rest hl' htext hstart =>
    have hbefore : byteLength l + byteLength brk + byteLength before =
        byteLength (l ++ (brk ++ before)) := by
      rw [byteLength_append, byteLength_append, Nat.add_assoc]
    rw [← Nat.add_assoc, ← Nat.add_assoc, hbefore]
    refine @Place.inBreak _ (number + 1) _ l' rest hl' ?_ ?_
    · rw [htext]
      simp
    · rw [lineStart_succ_append_break hl hbrk, hstart, Option.map_some, hbefore]

lemma place_of_first_line (hline : text.lines[0]? = some (a ++ c))
    (hsplits : ¬ SplitsBreak text (byteLength a)) : Place text (byteLength a) := by
  have hplace := @Place.inLine text 0 0 a c hline (by rw [lineStart]) (by rwa [Nat.zero_add])
  rwa [Nat.zero_add] at hplace

/-- **What a place is.**  Every offset between two characters stands in a line or splits its
end. -/
lemma place_of_append (htext : text = a ++ b) : Place text (byteLength a) := by
  induction lined text generalizing a with
  | @last text hl =>
    subst htext
    refine place_of_first_line (c := b) (by rw [lines_of_noBreak hl]; rfl) ?_
    rw [splitsBreak_append]
    exact fun h => (noBreak_append.mp hl).1.getLast?_ne h.1
  | @more l brk rest hl hbrk _ ih =>
    have hsplits : ∀ {a b : Text}, l ++ (brk ++ rest) = a ++ b → NoBreak a →
        ¬ SplitsBreak (l ++ (brk ++ rest)) (byteLength a) := by
      intro a b htext ha
      rw [htext, splitsBreak_append]
      exact fun h => ha.getLast?_ne h.1
    have hfirst : (l ++ (brk ++ rest)).lines[0]? = some l := by
      rw [lines_append_break hl hbrk]
      rfl
    -- Where `a` ends: behind the line's break, in it, or in the line.
    rcases append_eq_append_iff.mp htext with ⟨c, rfl, hrest⟩ | ⟨c, rfl, rfl⟩
    · rcases append_eq_append_iff.mp hrest with ⟨d, rfl, rfl⟩ | ⟨d, rfl, rfl⟩
      · rw [byteLength_append, byteLength_append, ← Nat.add_assoc]
        exact (ih rfl).append_break hl hbrk
      · by_cases hc : c = []
        · subst hc
          rw [append_nil] at htext ⊢
          exact place_of_first_line (c := []) (by rw [hfirst, append_nil]) (hsplits htext hl)
        by_cases hd : d = []
        · subst hd
          rw [append_nil] at hbrk ⊢
          have hplace := Place.append_break (d := []) (b := rest) hl hbrk (ih rfl)
          rwa [← byteLength_append] at hplace
        obtain ⟨rfl, rfl⟩ := hbrk.eq_of_append rfl hc hd
        have hplace : Place (l ++ (['\r'] ++ ['\n'] ++ rest))
            (byteLength [] + byteLength l + 1) :=
          @Place.inBreak _ 0 [] l rest hl (by simp) (by rw [lineStart]; rfl)
        rw [byteLength_nil, Nat.zero_add] at hplace
        rw [byteLength_append]
        exact hplace
    · exact place_of_first_line hfirst (hsplits htext (noBreak_append.mp hl).1)

/-! ## From positions to offsets -/

lemma exists_append_of_columnOffset {k : Nat} (h : columnOffset k text = some m) :
    ∃ a b, text = a ++ b ∧ NoBreak a ∧ unitLength a = k ∧ byteLength a = m := by
  induction text generalizing k m with
  | nil =>
    cases k with
    | zero =>
      obtain rfl : 0 = m := by simpa [columnOffset] using h
      exact ⟨[], [], rfl, noBreak_nil, rfl, rfl⟩
    | succ k => simp [columnOffset] at h
  | cons c rest ih =>
    cases k with
    | zero =>
      obtain rfl : 0 = m := by simpa [columnOffset] using h
      exact ⟨[], c :: rest, rfl, noBreak_nil, rfl, rfl⟩
    | succ k =>
      rw [columnOffset] at h
      split_ifs at h with hc
      obtain ⟨m, hm, rfl⟩ := Option.map_eq_some_iff.mp h
      obtain ⟨a, b, rfl, ha, hunits, hbytes⟩ := ih hm
      simp only [Bool.or_eq_true, beq_iff_eq, decide_eq_true_eq, not_or, Nat.not_lt] at hc
      refine ⟨c :: a, b, rfl, noBreak_cons.mpr ⟨hc.1, ha⟩, ?_, by rw [byteLength_cons, hbytes]⟩
      rw [unitLength_cons, hunits]
      omega

/-- A part without breaks ends where the line ends, or before. -/
lemma isPrefix_of_noBreak {after : Text} (h : l ++ after = a ++ b) (ha : NoBreak a)
    (hafter : ∀ x ∈ after.head?, x = '\n' ∨ x = '\r') : a <+: l := by
  rcases append_eq_append_iff.mp h with ⟨c, rfl, hc⟩ | ⟨c, rfl, -⟩
  · -- What `a` has behind the line would begin with a break.
    cases c with
    | nil => simp
    | cons x c =>
      have hx : x ≠ '\n' ∧ x ≠ '\r' := ha x (by simp)
      exact absurd (hafter x (by rw [hc]; rfl)) (not_or.mpr hx)
  · exact prefix_append _ _

lemma exists_line_of_lineStart {start : Nat} (h : lineStart n text = some start) :
    ∃ l, text.lines[n]? = some l := by
  have hsome := isSome_lineStart n text
  rw [h, Option.isSome_some, eq_comm, decide_eq_true_eq] at hsome
  exact ⟨_, getElem?_eq_getElem hsome⟩

lemma exists_of_offset (h : text.offset p = some n) :
    ∃ start u v, text.lines[p.line]? = some (u ++ v) ∧ lineStart p.line text = some start ∧
      p.character = unitLength u ∧ n = start + byteLength u := by
  simp only [offset, Option.bind_eq_bind, Option.bind_eq_some_iff, Option.pure_def,
    Option.some.injEq] at h
  obtain ⟨start, hstart, column, hcolumn, rfl⟩ := h
  obtain ⟨l, hl⟩ := exists_line_of_lineStart hstart
  obtain ⟨before, after, htext, hstart', hafter⟩ := exists_lineStart hl
  obtain rfl : start = byteLength before := by simpa [hstart] using hstart'
  obtain ⟨u, b, hdrop, hu, hunits, hbytes⟩ := exists_append_of_columnOffset hcolumn
  rw [htext, dropBytes_append] at hdrop
  have hafter' : ∀ x ∈ after.head?, x = '\n' ∨ x = '\r' := by
    rcases hafter with ⟨-, rfl⟩ | ⟨-, brk, rest, rfl, rfl | rfl | ⟨rfl, -⟩, -⟩ <;> simp
  obtain ⟨v, rfl⟩ := isPrefix_of_noBreak hdrop hu hafter'
  exact ⟨byteLength before, u, v, hl, hstart, hunits.symm, by rw [hbytes]⟩

/-! ## From offsets to positions -/

lemma positionAt_of_offset (h : text.offset p = some n) : text.positionAt n = p := by
  obtain ⟨start, u, v, hline, hstart, hunits, rfl⟩ := exists_of_offset h
  rw [positionAt_lineStart hline hstart (by simp), takeBytes_append, ← hunits]

lemma isBoundary_of_offset (h : text.offset p = some n) :
    n ≤ byteLength text ∧ isBoundary n text = true := by
  obtain ⟨start, u, v, hline, hstart, -, rfl⟩ := exists_of_offset h
  obtain ⟨before, after, htext, hstart', -⟩ := exists_lineStart hline
  obtain rfl : start = byteLength before := by simpa [hstart] using hstart'
  have hsplit : text = (before ++ u) ++ (v ++ after) := by rw [htext]; simp
  have hboundary := isBoundary_append (before ++ u) (v ++ after)
  rw [← hsplit, byteLength_append] at hboundary
  refine ⟨?_, hboundary⟩
  rw [hsplit, byteLength_append, byteLength_append]
  omega

/-- Between the two characters of its end a line has not ended yet: the position is one column
further than the line has. -/
lemma positionAt_inBreak (hl : NoBreak l)
    (hstart : lineStart number (before ++ (l ++ '\r' :: '\n' :: rest)) = some (byteLength before)) :
    (before ++ (l ++ '\r' :: '\n' :: rest)).positionAt (byteLength before + byteLength l + 1) =
      ⟨number, unitLength l + 1⟩ := by
  have hcr : ∀ here : Position, advance here 1 ('\r' :: '\n' :: rest) =
      ⟨here.line, here.character + 1⟩ := by
    simp [advance, endsLine, units, show Char.utf8Size '\r' = 1 from rfl,
      show Char.utf8Size '\n' = 1 from rfl]
  rw [positionAt, Nat.add_assoc, advance_add_lineStart hstart, dropBytes_append,
    advance_append_noBreak hl, hcr]
  simp

lemma unitLength_le_of_isPrefix (h : a <+: b) : unitLength a ≤ unitLength b := by
  obtain ⟨rest, rfl⟩ := h
  simp

/-- No position names the place between the two characters of a line end. -/
lemma offset_inBreak
    (hstart : lineStart number (before ++ (l ++ '\r' :: '\n' :: rest)) = some (byteLength before)) :
    (before ++ (l ++ '\r' :: '\n' :: rest)).offset ⟨number, unitLength l + 1⟩ = none := by
  have hnone : columnOffset (unitLength l + 1) (l ++ '\r' :: '\n' :: rest) = none := by
    by_contra hsome
    obtain ⟨m, hm⟩ := Option.ne_none_iff_exists'.mp hsome
    obtain ⟨u, b, hu, hnoBreak, hunits, -⟩ := exists_append_of_columnOffset hm
    have hle := unitLength_le_of_isPrefix (isPrefix_of_noBreak hu hnoBreak (by simp))
    omega
  simp [offset, hstart, hnone]

/-- The position of a boundary names the boundary again, unless it splits a line end. -/
lemma offset_positionAt (h : isBoundary n text = true) :
    (SplitsBreak text n → text.offset (text.positionAt n) = none) ∧
      (¬ SplitsBreak text n → text.offset (text.positionAt n) = some n) := by
  obtain ⟨a, b, htext, rfl⟩ := exists_append_of_isBoundary h
  have hplace := place_of_append htext
  generalize byteLength a = n at hplace ⊢
  cases hplace with
  | @inLine number start u v hline hstart hwhole =>
    refine ⟨fun hsplits => absurd hsplits hwhole, fun _ => ?_⟩
    rw [positionAt_lineStart hline hstart (by simp), takeBytes_append,
      offset_lineStart hline hstart]
  | @inBreak number before l rest hl htext hstart =>
    have hsplits : SplitsBreak text (byteLength before + byteLength l + 1) :=
      ⟨before ++ l, rest, by rw [htext]; simp, by rw [byteLength_append]⟩
    refine ⟨fun _ => ?_, fun hwhole => absurd hsplits hwhole⟩
    rw [htext] at hstart ⊢
    rw [positionAt_inBreak hl hstart, offset_inBreak hstart]

/-! ## Order and size of positions -/

/-- The position behind a character. -/
def next (here : Position) (c : Char) (rest : Text) : Position :=
  if endsLine c rest then ⟨here.line + 1, 0⟩ else ⟨here.line, here.character + units c⟩

lemma advance_cons (here : Position) (n : Nat) (c : Char) (rest : Text) :
    advance here n (c :: rest) =
      if n < c.utf8Size then here else advance (next here c rest) (n - c.utf8Size) rest := rfl

lemma le_next (here : Position) (c : Char) (rest : Text) : here.le (next here c rest) = true := by
  rw [Position.le_iff, next]
  split
  case isTrue => exact .inl (Nat.lt_succ_self _)
  case isFalse => exact .inr ⟨rfl, Nat.le_add_right _ _⟩

lemma le_advance (here : Position) (n : Nat) (text : Text) :
    here.le (advance here n text) = true := by
  induction text generalizing here n with
  | nil => exact here.le_refl
  | cons c rest ih =>
    rw [advance_cons]
    split
    case isTrue => exact here.le_refl
    case isFalse => exact Position.le_trans (le_next here c rest) (ih _ _)

/-- A longer walk goes further, wherever in a character it is broken off. -/
lemma advance_mono (h : m ≤ n) (here : Position) (text : Text) :
    (advance here m text).le (advance here n text) = true := by
  induction text generalizing here m n with
  | nil => exact here.le_refl
  | cons c rest ih =>
    by_cases hm : m < c.utf8Size
    · rw [advance_cons here m, if_pos hm]
      exact le_advance here n (c :: rest)
    · rw [advance_cons, advance_cons, if_neg hm, if_neg (by omega)]
      exact ih (Nat.sub_le_sub_right h _) _

lemma units_le_utf8Size (c : Char) : units c ≤ c.utf8Size := by
  have hpos := c.utf8Size_pos
  rw [units]
  split
  case isTrue => exact hpos
  case isFalse h =>
    have hone : c.utf8Size ≠ 1 := by
      intro hone
      have hle := UInt32.le_iff_toNat_le.mp (Char.utf8Size_eq_one_iff.mp hone)
      change c.toNat ≤ 127 at hle
      omega
    omega

/-- Lines and columns together are never more than the bytes passed. -/
lemma advance_line_add_character_le (here : Position) (n : Nat) (text : Text) :
    (advance here n text).line + (advance here n text).character ≤
      here.line + here.character + byteLength text := by
  induction text generalizing here n with
  | nil => exact Nat.le_refl _
  | cons c rest ih =>
    rw [advance_cons, byteLength_cons]
    split
    case isTrue => omega
    case isFalse =>
      have hrest := ih (next here c rest) (n - c.utf8Size)
      have hnext : (next here c rest).line + (next here c rest).character ≤
          here.line + here.character + c.utf8Size := by
        have hpos := c.utf8Size_pos
        have hunits := units_le_utf8Size c
        rw [next]
        split <;> simp only <;> omega
      omega

/-! ## The inverse -/

/-- **Positions and offsets are inverse.**  A position that has an offset is the position of that
offset, which stands between two characters.  The position of every such offset names it again,
except that no position names a place inside a line end.  Positions are ordered as any offsets are,
and they are no larger than the text is long, so those of a text of less than `2 ^ 32` bytes fit
into 32 bits. -/
theorem offset_inverse_positionAt (text : Text) :
    (∀ p n, text.offset p = some n →
      n ≤ byteLength text ∧ isBoundary n text = true ∧ text.positionAt n = p) ∧
    (∀ n, isBoundary n text = true →
      (SplitsBreak text n → text.offset (text.positionAt n) = none) ∧
      (¬ SplitsBreak text n → text.offset (text.positionAt n) = some n)) ∧
    (∀ m n, m ≤ n → (text.positionAt m).le (text.positionAt n) = true) ∧
    (∀ n, (text.positionAt n).line + (text.positionAt n).character ≤ byteLength text) := by
  refine ⟨fun p n h => ?_, fun n h => offset_positionAt h, fun m n h => advance_mono h _ _, ?_⟩
  · obtain ⟨hle, hboundary⟩ := isBoundary_of_offset h
    exact ⟨hle, hboundary, positionAt_of_offset h⟩
  · intro n
    simpa [positionAt] using advance_line_add_character_le ⟨0, 0⟩ n text

/-- Two bytes and one unit, four bytes and two units, then a line end that offset 7 splits. -/
theorem offset_inverse_positionAt_twoLines :
    let text := ['ö', '😀', '\r', '\n', 'x']
    (offset text ⟨0, 3⟩ = some 6 ∧ positionAt text 6 = ⟨0, 3⟩) ∧
    (isBoundary 7 text = true ∧ SplitsBreak text 7 ∧ offset text (positionAt text 7) = none) ∧
    (isBoundary 8 text = true ∧ ¬ SplitsBreak text 8 ∧
      offset text (positionAt text 8) = some 8) ∧
    (3 ≤ 7 ∧ (positionAt text 3).le (positionAt text 7) = true) := by
  intro text
  obtain ⟨hposition, hboundary, hmono, -⟩ := offset_inverse_positionAt text
  have hoffset : offset text ⟨0, 3⟩ = some 6 := by decide
  have hseven : isBoundary 7 text = true := by decide
  have height : isBoundary 8 text = true := by decide
  have hinside : SplitsBreak text 7 := ⟨['ö', '😀'], ['x'], rfl, rfl⟩
  have hbehind : ¬ SplitsBreak text 8 := by
    change ¬ SplitsBreak (['ö', '😀', '\r', '\n'] ++ ['x'])
      (byteLength ['ö', '😀', '\r', '\n'])
    rw [splitsBreak_append]
    decide
  exact ⟨⟨hoffset, (hposition _ _ hoffset).2.2⟩,
    ⟨hseven, hinside, (hboundary 7 hseven).1 hinside⟩,
    ⟨height, hbehind, (hboundary 8 height).2 hbehind⟩,
    by decide, hmono 3 7 (by decide)⟩

end Text
end KrlWorkbench
