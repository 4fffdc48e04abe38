import KrlWorkbench.Proofs.Code.KindKeywords
import KrlWorkbench.Proofs.Text.Positions
import Mathlib.Data.List.Nodup

/-!
# Block keywords as they are spelled

Patterns compare letters up to case in all of Unicode, so a keyword with an `S` has spellings that
are no ASCII text and take more bytes than the keyword.  The column of an event and the length of
its keyword cut out the word in the code exactly if it is spelled in ASCII
(`BlockEvent.SpelledIn`).  Such a keyword is a whole word of the code (`SpelledIn.exists_whole`),
and it is what a search for the keyword finds if no other of its kind stands in front of it
(`SpelledIn.exists_find?_eq_some`).
-/

namespace KrlWorkbench

open List Text

lemma Pattern.exists_word_of_mem_occurrences {x text : Text} {m : Match}
    (hx : isIdentifier x = true) (h : m ∈ (wholeWord x).occurrences text) :
    ∃ a w b, text = a ++ (w ++ b) ∧ sameWord x w = true ∧ endsWord a = false ∧
      startsWord b = false ∧ m.whole = ⟨byteLength a, w⟩ := by
  obtain ⟨a, u, v, rfl, hwhole, hfits⟩ := matches_of_mem_occurrences h
  have hmatch : ((wholeWord x).matchAt (between a (u ++ v))).isSome = true :=
    isSome_run_of_fits hfits rfl rfl
  obtain ⟨found, hfound⟩ := Option.isSome_iff_exists.mp hmatch
  obtain ⟨w, b, huv, hsame, ha, hb, -⟩ := (matchAt_wholeWord_iff hx).mp hfound
  rw [huv] at h ⊢
  obtain ⟨m', hm', hwhole'⟩ := exists_mem_occurrences_wholeWord hx hsame ha hb
  have hstarts : (((wholeWord x).occurrences (a ++ (w ++ b))).map (·.whole.start)).Nodup :=
    pairwise_map.mpr ((pairwise_start_occurrences hx _).imp Nat.ne_of_lt)
  obtain rfl : m = m' :=
    inj_on_of_nodup_map hstarts h hm' (by rw [hwhole, hwhole'])
  exact ⟨a, w, b, rfl, hsame, ha, hb, hwhole'⟩

/-! ## Words that equal a keyword in ASCII -/

section SameName

variable {k word : Text}

lemma isIdentifier_of_sameName (hk : isIdentifier k = true) (h : sameName word k = true) :
    isIdentifier word = true := by
  rwa [← isIdentifier_upper, beq_iff_eq.mp h, isIdentifier_upper]

lemma length_of_sameName (h : sameName word k = true) : word.length = k.length := by
  have hlength := congrArg List.length (beq_iff_eq.mp h)
  simpa [upper] using hlength

lemma isAscii_of_sameName (hk : isIdentifier k = true) (h : sameName word k = true) :
    ∀ c ∈ word, isAscii c = true := by
  intro c hc
  exact isAscii_of_isNameChar (isNameChar_of_isIdentifier (isIdentifier_of_sameName hk h) c hc)

lemma byteLength_of_sameName (hk : isIdentifier k = true) (h : sameName word k = true) :
    byteLength word = k.length := by
  rw [byteLength_eq_length (isAscii_of_sameName hk h), length_of_sameName h]

end SameName

namespace BlockKind

open Pattern

variable {kind : BlockKind} {before word behind : Text} {m : Match}

/-- A closer that is found where a word in ASCII equals it is that word. -/
lemma whole_of_closer (hm : m ∈ kind.closerPattern.occurrences (before ++ (word ++ behind)))
    (hword : sameName word kind.closer.toList = true) (hstart : m.whole.start = byteLength before) :
    m.whole = ⟨byteLength before, word⟩ ∧ endsWord before = false ∧ startsWord behind = false := by
  obtain ⟨a, w, b, hcode, hw, ha, hb, hwhole⟩ :=
    exists_word_of_mem_occurrences kind.isIdentifier_closer hm
  have hbefore : byteLength before = byteLength a :=
    hstart.symm.trans (congrArg Capture.start hwhole)
  obtain ⟨rfl, hrest⟩ := append_inj_of_byteLength hcode hbefore
  obtain ⟨rfl, rfl⟩ := List.append_inj hrest
    ((length_of_sameName hword).trans (length_eq_of_sameWord hw).symm)
  exact ⟨hwhole, ha, hb⟩

/-- An opener that ends where a word in ASCII that equals it does is that word.  It begins as many
bytes before its end as the keyword has. -/
lemma whole_of_opener (hm : kind.openerPattern.find? (before ++ (word ++ behind)) = some m)
    (hword : sameName word kind.opener.toList = true)
    (hstart : m.whole.stop - kind.opener.length = byteLength before) :
    (∃ m', (wholeWord kind.opener.toList).find? (before ++ (word ++ behind)) = some m' ∧
      m'.whole = ⟨byteLength before, word⟩) ∧
      endsWord before = false ∧ startsWord behind = false := by
  have hopens := opensUpTo_of_find? hm
  have hle := hopens.opener_length_le
  have hbytes : byteLength word = kind.opener.length :=
    byteLength_of_sameName kind.isIdentifier_opener hword
  obtain ⟨indent, g, w, rest, hcode, hindent, hg, hw, hrest, hstop⟩ := hopens
  have hend : byteLength (before ++ word) = byteLength (indent ++ g ++ w) := by
    rw [append_assoc, ← hstop, byteLength_append]
    omega
  have hsplit : (before ++ word) ++ behind = (indent ++ g ++ w) ++ rest := by
    simpa only [append_assoc] using hcode
  obtain ⟨hfront, rfl⟩ := append_inj_of_byteLength hsplit hend
  obtain ⟨rfl, rfl⟩ := append_inj' hfront
    ((length_of_sameName hword).trans (length_eq_of_sameWord hw).symm)
  have hfree : endsWord (indent ++ g) = false :=
    endsWord_append_of_false (endsWord_of_isBlanks hindent) hg.modifiers.endsWord_eq_false
  obtain ⟨m', hm', hwhole⟩ := find?_opener hindent hg hw hrest
  rw [hcode]
  exact ⟨⟨m', hm', hwhole⟩, hfree, hrest⟩

end BlockKind

/-! ## Events -/

namespace BlockEvent

variable {code : Text} {line : Nat} {kind : BlockKind} {e : BlockEvent}

/-- The keyword stands at its column in the code, spelled in ASCII. -/
def SpelledIn (e : BlockEvent) (code : Text) : Prop :=
  isBoundary e.column code = true ∧
    sameName (slice e.column (e.column + e.keyword.length) code) e.keyword.toList = true

instance (e : BlockEvent) (code : Text) : Decidable (e.SpelledIn code) :=
  inferInstanceAs (Decidable (_ ∧ _))

lemma SpelledIn.exists_append (h : e.SpelledIn code) :
    ∃ before word behind, code = before ++ (word ++ behind) ∧ byteLength before = e.column ∧
      sameName word e.keyword.toList = true := by
  obtain ⟨hboundary, hword⟩ := h
  obtain ⟨before, after, rfl, hbefore⟩ := exists_append_of_isBoundary hboundary
  rw [slice, Nat.add_sub_cancel_left, hbefore, dropBytes_append] at hword
  refine ⟨before, _, dropBytes e.keyword.length after, ?_, hbefore.symm, hword⟩
  rw [takeBytes_append_dropBytes]

lemma isIdentifier_keyword (e : BlockEvent) : isIdentifier e.keyword.toList = true := by
  rw [keyword]
  split
  · exact e.kind.isIdentifier_opener
  · exact e.kind.isIdentifier_closer

/-- **A keyword spelled in ASCII is a whole word.** -/
lemma SpelledIn.exists_whole (h : e.SpelledIn code) (he : e ∈ ofKind code line kind) :
    ∃ before word behind, code = before ++ (word ++ behind) ∧ byteLength before = e.column ∧
      sameName word e.keyword.toList = true ∧ endsWord before = false ∧
      startsWord behind = false := by
  obtain ⟨before, word, behind, rfl, hcolumn, hword⟩ := h.exists_append
  refine ⟨before, word, behind, rfl, hcolumn, hword, ?_⟩
  rcases mem_append.mp he with he | he
  · cases hfind : kind.openerPattern.find? (before ++ (word ++ behind)) with
    | none => simp [hfind] at he
    | some m =>
      rw [hfind] at he
      obtain rfl := mem_singleton.mp he
      exact (BlockKind.whole_of_opener hfind hword hcolumn.symm).2
  · obtain ⟨m, hm, rfl⟩ := mem_map.mp he
    exact (BlockKind.whole_of_closer hm hword hcolumn.symm).2

/-- A keyword that no other of its kind stands in front of is what a search for it finds. -/
lemma SpelledIn.exists_find?_eq_some (h : e.SpelledIn code) {more : List BlockEvent}
    (he : ofKind code line kind = e :: more) :
    ∃ m, (Pattern.wholeWord e.keyword.toList).find? code = some m ∧ m.whole.start = e.column ∧
      byteLength m.whole.text = e.keyword.length := by
  obtain ⟨before, word, behind, rfl, hcolumn, hword⟩ := h.exists_append
  have hbytes := byteLength_of_sameName e.isIdentifier_keyword hword
  cases hfind : kind.openerPattern.find? (before ++ (word ++ behind)) with
  | none =>
    rw [ofKind_of_find?_eq_none hfind] at he
    obtain ⟨m, rest, hfound, rfl, -⟩ := map_eq_cons_iff.mp he
    have hm : m ∈ kind.closerPattern.occurrences (before ++ (word ++ behind)) := by simp [hfound]
    obtain ⟨hwhole, -⟩ := BlockKind.whole_of_closer hm hword hcolumn.symm
    refine ⟨m, ?_, rfl, ?_⟩
    · rw [← Pattern.head?_occurrences]
      exact congrArg List.head? hfound
    · rw [hwhole]
      exact hbytes
  | some m =>
    rw [ofKind_of_find? hfind] at he
    obtain ⟨rfl, -⟩ := List.cons.inj he
    obtain ⟨⟨m', hm', hwhole⟩, -⟩ := BlockKind.whole_of_opener hfind hword hcolumn.symm
    refine ⟨m', hm', ?_, ?_⟩
    · rw [hwhole, hcolumn]
    · rw [hwhole]
      exact hbytes

end BlockEvent

end KrlWorkbench
