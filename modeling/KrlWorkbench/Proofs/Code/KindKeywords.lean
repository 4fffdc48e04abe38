import KrlWorkbench.Proofs.Finding.BlockNesting
import KrlWorkbench.Proofs.Scope.NamedLines

/-!
# The keywords of one kind of block in a line

The opener of a kind begins the line, at most behind blanks and `GLOBAL`, and its closers are whole
words.  So in a line with an opener the closers stand behind it, and those of the line are those of
what follows the opener (`map_start_occurrences_of_opensUpTo`).  The events of a kind are therefore
at most one opener and then closers, in strict column order (`pairwise_ofKind`), and sorting them in
among the other kinds keeps them as they are (`filter_ofLine`).
-/

namespace KrlWorkbench

open List Text

variable {x w indent g : Text} {kind : BlockKind} {sorted : List BlockEvent} {links : List Link}

/-! ## Whole words in order -/

namespace Pattern

lemma le_start_of_mem_wordsFrom {here : Nat} {c : Capture} (h : c ∈ wordsFrom x here links) :
    here ≤ c.start := by
  induction links generalizing here with
  | nil => cases h
  | cons link links ih =>
    cases link with
    | sep d => exact Nat.le_trans (Nat.le_add_right _ _) (ih h)
    | word w w' =>
      rcases mem_append.mp h with h | h
      · split at h
        · rw [mem_singleton.mp h]
        · cases h
      · exact Nat.le_trans (Nat.le_add_right _ _) (ih h)

lemma pairwise_wordsFrom {y : Text} (h : Aligned x y links) (here : Nat) :
    (wordsFrom x here links).Pairwise fun a b => a.start < b.start := by
  induction h generalizing here with
  | nil => exact .nil
  | sep _ _ ih => exact ih _
  | @word w w' links hw _ _ _ ih =>
    rw [wordsFrom]
    split
    case isFalse => exact ih _
    case isTrue =>
      refine .cons (fun b hb => ?_) (ih _)
      have hpos : 0 < w.length := length_pos_iff.mpr hw.ne_nil
      have hbytes := length_le_byteLength w
      have hle := le_start_of_mem_wordsFrom hb
      show here < b.start
      omega

lemma pairwise_start_occurrences (hx : isIdentifier x = true) (text : Text) :
    ((wholeWord x).occurrences text).Pairwise fun m m' => m.whole.start < m'.whole.start := by
  obtain ⟨links, haligned, rfl, -⟩ := exists_links x x false false text
  have hpairwise := pairwise_wordsFrom haligned 0
  rwa [← map_whole_occurrences hx haligned, pairwise_map] at hpairwise

end Pattern

/-! ## Openers and what follows them -/

namespace BlockKind

open Pattern

lemma isModifier_closer (kind : BlockKind) : isModifier kind.closer.toList = false := by
  cases kind <;> decide

lemma sameWord_closer_opener (kind : BlockKind) :
    sameWord kind.closer.toList kind.opener.toList = false := by
  cases kind <;> decide

lemma sameWord_eq_false {k : Text} (h : sameWord x k = false) (hw : sameWord k w = true) :
    sameWord x w = false := by
  rw [Bool.eq_false_iff] at h ⊢
  intro hx
  exact h (sameWord_iff.mpr ((sameWord_iff.mp hx).trans (sameWord_iff.mp hw).symm))

/-- **The closers of a line with an opener stand behind it.** -/
lemma map_start_occurrences_of_opensUpTo {code : Text} {stop : Nat} (h : kind.OpensUpTo code stop) :
    (kind.closerPattern.occurrences code).map (·.whole.start) =
      (kind.closerPattern.occurrences (dropBytes stop code)).map (stop + ·.whole.start) := by
  obtain ⟨indent, g, w, rest, rfl, hindent, hg, hw, hrest, rfl⟩ := h
  obtain ⟨links, haligned, hlinks, rfl⟩ :=
    exists_links_of_isWord kind.closer.toList (isWord_of_opener hw) hrest
  have hwords := hg.modifiers.map_whole_occurrences hindent kind.isIdentifier_closer
    kind.isModifier_closer hlinks
  rw [oldText_word, wordsFrom, sameWord_eq_false kind.sameWord_closer_opener hw, if_neg (by simp),
    nil_append, ← byteLength_append, append_assoc] at hwords
  have hdrop : dropBytes (byteLength (indent ++ (g ++ w))) (indent ++ (g ++ (w ++ oldText links))) =
      oldText links := by
    have happend := dropBytes_append (indent ++ (g ++ w)) (oldText links)
    rwa [append_assoc, append_assoc] at happend
  have hrest := map_whole_occurrences kind.isIdentifier_closer haligned
  have hstart := wordsFrom_add kind.closer.toList (byteLength (indent ++ (g ++ w))) 0 links
  rw [Nat.add_zero, ← hwords, ← hrest] at hstart
  rw [map_map, map_map, map_map] at hstart
  rw [hdrop]
  exact hstart

lemma isIn_dropBytes_iff {code : Text} {stop : Nat} (h : kind.OpensUpTo code stop) :
    kind.closerPattern.isIn (dropBytes stop code) = true ↔
      kind.closerPattern.occurrences code ≠ [] := by
  have hlength := congrArg List.length (map_start_occurrences_of_opensUpTo h)
  rw [length_map, length_map] at hlength
  rw [isIn_iff_occurrences_ne_nil, ← length_pos_iff, ← length_pos_iff, hlength]

end BlockKind

/-! ## The events of a kind -/

namespace BlockEvent

variable {code : Text} {line : Nat} {kind : BlockKind}

lemma ofKind_of_find? {m : Match} (h : kind.openerPattern.find? code = some m) :
    ofKind code line kind =
      ⟨kind, true, line, m.whole.stop - kind.opener.length⟩ :: closersOf code line kind := by
  rw [ofKind, h]
  rfl

lemma ofKind_of_find?_eq_none (h : kind.openerPattern.find? code = none) :
    ofKind code line kind = closersOf code line kind := by
  rw [ofKind, h]
  rfl

lemma opens_of_mem_closersOf {e : BlockEvent} (h : e ∈ closersOf code line kind) :
    e.opens = false := by
  obtain ⟨m, -, rfl⟩ := mem_map.mp h
  rfl

lemma of_mem_ofKind {e : BlockEvent} (h : e ∈ ofKind code line kind) :
    e.kind = kind ∧ e.line = line := by
  have hcloser : e ∈ closersOf code line kind → e.kind = kind ∧ e.line = line := by
    intro h
    obtain ⟨m, -, rfl⟩ := mem_map.mp h
    exact ⟨rfl, rfl⟩
  cases hfind : kind.openerPattern.find? code with
  | none => exact hcloser (ofKind_of_find?_eq_none hfind ▸ h)
  | some m =>
    rw [ofKind_of_find? hfind] at h
    rcases mem_cons.mp h with rfl | h
    · exact ⟨rfl, rfl⟩
    · exact hcloser h

/-- The events of a kind stand in strict column order, its opener first. -/
lemma pairwise_ofKind (code : Text) (line : Nat) (kind : BlockKind) :
    (ofKind code line kind).Pairwise fun a b => a.column < b.column := by
  have hclosers : (closersOf code line kind).Pairwise fun a b => a.column < b.column := by
    rw [closersOf, pairwise_map]
    exact Pattern.pairwise_start_occurrences kind.isIdentifier_closer code
  cases hfind : kind.openerPattern.find? code with
  | none => rwa [ofKind_of_find?_eq_none hfind]
  | some m =>
    rw [ofKind_of_find? hfind]
    refine .cons (fun e he => ?_) hclosers
    have hopens := BlockKind.opensUpTo_of_find? hfind
    have hlength := hopens.opener_length_le
    have hpos : 0 < kind.opener.length := by cases kind <;> decide
    obtain ⟨m', hm', rfl⟩ := mem_map.mp he
    have hstart : m'.whole.start ∈
        (kind.closerPattern.occurrences (dropBytes m.whole.stop code)).map
          (m.whole.stop + ·.whole.start) := by
      rw [← BlockKind.map_start_occurrences_of_opensUpTo hopens]
      exact mem_map_of_mem hm'
    obtain ⟨m'', -, hm''⟩ := mem_map.mp hstart
    show m.whole.stop - kind.opener.length < m'.whole.start
    omega

/-! ## Sorting keeps the order of a kind -/

lemma filter_insertByColumn (event : BlockEvent)
    (h : sorted.Pairwise fun a b => a.column ≤ b.column) :
    (insertByColumn event sorted).filter (fun e => e.kind = kind) =
      if event.kind = kind then insertByColumn event (sorted.filter fun e => e.kind = kind)
      else sorted.filter fun e => e.kind = kind := by
  induction sorted with
  | nil => simp [insertByColumn, filter_cons]
  | cons first rest ih =>
    obtain ⟨hfirst, hrest⟩ := pairwise_cons.mp h
    rw [insertByColumn]
    split
    case isTrue hlt =>
      -- All that stands from here on has a greater column, whatever is left out.
      rw [filter_cons]
      by_cases hkind : event.kind = kind
      · rw [if_pos (by simpa using hkind), if_pos hkind]
        cases hfilter : (first :: rest).filter fun e => e.kind = kind with
        | nil => rfl
        | cons e more =>
          have hmem : e ∈ first :: rest :=
            mem_of_mem_filter (hfilter ▸ mem_cons_self)
          have hcolumn : event.column < e.column := by
            rcases mem_cons.mp hmem with rfl | hmem
            · exact hlt
            · exact Nat.lt_of_lt_of_le hlt (hfirst e hmem)
          rw [insertByColumn, if_pos hcolumn]
      · rw [if_neg (by simpa using hkind), if_neg hkind]
    case isFalse hge =>
      by_cases hkind : first.kind = kind
      · rw [filter_cons_of_pos (by simpa using hkind),
          filter_cons_of_pos (by simpa using hkind), ih hrest]
        split
        · rw [insertByColumn, if_neg hge]
        · rfl
      · rw [filter_cons_of_neg (by simpa using hkind),
          filter_cons_of_neg (by simpa using hkind), ih hrest]

lemma filter_foldl_insertByColumn (events : List BlockEvent)
    (h : sorted.Pairwise fun a b => a.column ≤ b.column) :
    (events.foldl (fun sorted event => insertByColumn event sorted) sorted).filter
        (fun e => e.kind = kind) =
      (events.filter fun e => e.kind = kind).foldl (fun sorted event => insertByColumn event sorted)
        (sorted.filter fun e => e.kind = kind) := by
  induction events generalizing sorted with
  | nil => rfl
  | cons event events ih =>
    rw [foldl_cons, ih (pairwise_insertByColumn event h), filter_insertByColumn event h,
      filter_cons]
    by_cases hkind : event.kind = kind
    · rw [if_pos hkind, if_pos (by simpa using hkind), foldl_cons]
    · rw [if_neg hkind, if_neg (by simpa using hkind)]

lemma foldl_insertByColumn_of_pairwise {events : List BlockEvent}
    (h : (sorted ++ events).Pairwise fun a b => a.column ≤ b.column) :
    events.foldl (fun sorted event => insertByColumn event sorted) sorted = sorted ++ events := by
  have hlast : ∀ (event : BlockEvent) (sorted : List BlockEvent),
      (∀ e ∈ sorted, e.column ≤ event.column) →
        insertByColumn event sorted = sorted ++ [event] := by
    intro event sorted hle
    induction sorted with
    | nil => rfl
    | cons first rest ih =>
      rw [insertByColumn, if_neg (Nat.not_lt.mpr (hle first mem_cons_self)),
        ih (forall_mem_cons.mp hle).2, cons_append]
  induction events generalizing sorted with
  | nil => rw [foldl_nil, append_nil]
  | cons event events ih =>
    have hle : ∀ e ∈ sorted, e.column ≤ event.column := fun e he =>
      (pairwise_append.mp h).2.2 e he event mem_cons_self
    rw [foldl_cons, hlast event sorted hle, ih, append_assoc, singleton_append]
    rwa [append_assoc, singleton_append]

/-- **The events of a kind in a line are those that are looked for under the kind.** -/
lemma filter_ofLine (code : Text) (line : Nat) (kind : BlockKind) :
    (ofLine code line).filter (fun e => e.kind = kind) = ofKind code line kind := by
  have hsame : ∀ k, (ofKind code line k).filter (fun e => e.kind = kind) =
      if k = kind then ofKind code line k else [] := by
    intro k
    split
    case isTrue h =>
      rw [filter_eq_self]
      intro e he
      simpa [h] using (of_mem_ofKind he).1
    case isFalse h =>
      rw [filter_eq_nil_iff]
      intro e he
      simpa [(of_mem_ofKind he).1] using h
  have hall : (BlockKind.all.flatMap (ofKind code line)).filter (fun e => e.kind = kind) =
      ofKind code line kind := by
    rw [filter_flatMap]
    simp only [hsame]
    cases kind <;> simp [BlockKind.all]
  rw [ofLine, filter_foldl_insertByColumn _ .nil, hall]
  refine foldl_insertByColumn_of_pairwise ?_
  exact (pairwise_ofKind code line kind).imp Nat.le_of_lt

end BlockEvent

end KrlWorkbench
