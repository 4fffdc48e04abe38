import KrlWorkbench.Finding.Report
import KrlWorkbench.Proofs.Finding.BlockNesting
import KrlWorkbench.Proofs.Text.Lines

/-!
# Undeclared names are reported once each

The search for undeclared names ends with a step that drops findings of the same range and the same
message.  There are none: the identifiers of a line stand one behind the other, so that no two of
them have the same range, and what is reported in different lines has different ranges anyway.  The
step therefore changes nothing (`Finding.withoutRepeats_undeclared`), in whatever language messages
are compared.
-/

namespace KrlWorkbench

open List Context Text

variable {text : Text} {line : SourceLine}

/-! ## Pieces of lines and their ranges -/

/-- Pieces of lines that have the same range begin at the same byte of the same line. -/
lemma Text.eq_of_span_eq {lead a rest lead' a' rest' : Text} {n n' : Nat}
    (h : text.lines[n]? = some (lead ++ (a ++ rest)))
    (h' : text.lines[n']? = some (lead' ++ (a' ++ rest')))
    (heq : text.span n (byteLength lead) (byteLength a) =
      text.span n' (byteLength lead') (byteLength a')) :
    n = n' ∧ byteLength lead = byteLength lead' := by
  have hline : n = n' := by
    rw [span_eq h (by simp), span_eq h' (by simp)] at heq
    exact congrArg (fun r : Range => r.start.line) heq
  subst hline
  obtain ⟨before, -, -, hstart, -⟩ := exists_lineStart h
  have hoffset := (offset_span h hstart).1
  rw [heq, (offset_span h' hstart).1, Option.some.injEq] at hoffset
  exact ⟨rfl, by omega⟩

namespace Token

lemma pairwise_start_lt (code : Text) : (tokens code).Pairwise fun t t' => t.start < t'.start := by
  have hplaced := (placed_tokens code).pairwise_stop_le
  rw [pairwise_map] at hplaced
  refine hplaced.imp_of_mem fun {t t'} ht _ hle => ?_
  have hlength : 0 < byteLength t.text := by
    have hidentifier := (stop_eq_and_isIdentifier_of_mem_scan ht).2
    cases htext : t.text with
    | nil =>
      rw [htext] at hidentifier
      cases hidentifier
    | cons c rest => exact Nat.add_pos_left c.utf8Size_pos _
  have hstop : t.start + byteLength t.text ≤ t'.start := hle
  omega

/-- An identifier of a line's code is a piece of the line. -/
lemma exists_piece_of_mem_tokens_clean {line : Text} {t : Token}
    (h : t ∈ tokens (Code.clean line)) :
    ∃ before after, line = before ++ (t.text ++ after) ∧ t.start = byteLength before ∧
      t.stop - t.start = byteLength t.text := by
  obtain ⟨before, after, hline, hstart⟩ :=
    (placed_tokens_clean line).exists_append_of_mem (mem_map_of_mem h)
  have hstop : t.stop = t.start + byteLength t.text := (stop_eq_and_isIdentifier_of_mem_scan h).1
  exact ⟨before, after, hline, by simpa [capture] using hstart, by omega⟩

end Token

lemma Context.getElem?_of_mem_lines {view : WorkspaceView} (h : line ∈ (ofText text view).lines) :
    text.lines[line.number]? = some line.raw ∧ line.code = Code.clean line.raw := by
  obtain ⟨⟨raw, i⟩, hmem, rfl⟩ := mem_map.mp h
  exact ⟨mem_zipIdx_iff_getElem?.mp hmem, rfl⟩

namespace Finding

/-! ## Findings of one line and of all lines -/

lemma map_snd_withPrevious (previous : Option Token) (tokens : List Token) :
    (withPrevious previous tokens).map (·.2) = tokens := by
  induction tokens generalizing previous with
  | nil => rfl
  | cons token rest ih => rw [withPrevious, map_cons, ih]

lemma mem_of_mem_withPrevious {previous : Option Token} {tokens : List Token}
    {entry : Option Token × Token} (h : entry ∈ withPrevious previous tokens) :
    entry.2 ∈ tokens := by
  rw [← map_snd_withPrevious previous tokens]
  exact mem_map_of_mem h

/-- The range of an identifier in a line. -/
def tokenRange (ctx : Context) (line : SourceLine) (token : Token) : Range :=
  ctx.span line.number token.start (token.stop - token.start)

lemma exists_token_of_mem_undeclaredIn {ctx : Context} {labels : List Text} {f : Finding}
    (h : f ∈ undeclaredIn ctx labels line) :
    ∃ token ∈ Token.tokens line.code,
      f = ⟨tokenRange ctx line token, .undefinedVariable token.text⟩ := by
  rw [undeclaredIn] at h
  split at h
  case isTrue => cases h
  case isFalse =>
    obtain ⟨entry, hentry, hf⟩ := mem_filterMap.mp h
    dsimp only at hf
    split_ifs at hf
    obtain rfl := Option.some.inj hf
    exact ⟨entry.2, mem_of_mem_withPrevious hentry, rfl⟩

section Document

variable {text : Text} {view : WorkspaceView}

/-- Identifiers of one range stand in one line and begin there at the same byte. -/
lemma eq_of_tokenRange_eq {line' : SourceLine} (hline : line ∈ (ofText text view).lines)
    (hline' : line' ∈ (ofText text view).lines) {token token' : Token}
    (htoken : token ∈ Token.tokens line.code) (htoken' : token' ∈ Token.tokens line'.code)
    (heq : tokenRange (ofText text view) line token =
      tokenRange (ofText text view) line' token') :
    line.number = line'.number ∧ token.start = token'.start := by
  obtain ⟨hraw, hcode⟩ := getElem?_of_mem_lines hline
  obtain ⟨hraw', hcode'⟩ := getElem?_of_mem_lines hline'
  rw [hcode] at htoken
  rw [hcode'] at htoken'
  obtain ⟨before, after, hsplit, hstart, hlength⟩ :=
    Token.exists_piece_of_mem_tokens_clean htoken
  obtain ⟨before', after', hsplit', hstart', hlength'⟩ :=
    Token.exists_piece_of_mem_tokens_clean htoken'
  rw [hsplit] at hraw
  rw [hsplit'] at hraw'
  rw [tokenRange, tokenRange, hlength, hlength', hstart, hstart'] at heq
  rw [hstart, hstart']
  exact eq_of_span_eq hraw hraw' heq

lemma pairwise_range_undeclaredIn (hline : line ∈ (ofText text view).lines)
    (labels : List Text) :
    (undeclaredIn (ofText text view) labels line).Pairwise
      fun f g => f.range ≠ g.range := by
  rw [undeclaredIn]
  split
  case isTrue => exact .nil
  case isFalse =>
    have htokens := Token.pairwise_start_lt line.code
    rw [← map_snd_withPrevious none (Token.tokens line.code), pairwise_map] at htokens
    rw [pairwise_filterMap]
    refine htokens.imp_of_mem fun {entry entry'} hentry hentry' hlt f hf g hg heq => ?_
    dsimp only at hf hg
    split_ifs at hf hg
    obtain rfl := Option.some.inj hf
    obtain rfl := Option.some.inj hg
    have hstart := (eq_of_tokenRange_eq hline hline (mem_of_mem_withPrevious hentry)
      (mem_of_mem_withPrevious hentry') heq).2
    omega

lemma pairwise_range_undeclared (text : Text) (view : WorkspaceView) :
    (undeclared (ofText text view)).Pairwise fun f g => f.range ≠ g.range := by
  rw [undeclared, pairwise_flatMap]
  refine ⟨fun line hline => pairwise_range_undeclaredIn hline _, ?_⟩
  refine (lines_ofText_pairwise text view).imp_of_mem ?_
  intro line line' hline hline' hlt f hf g hg heq
  obtain ⟨token, htoken, rfl⟩ := exists_token_of_mem_undeclaredIn hf
  obtain ⟨token', htoken', rfl⟩ := exists_token_of_mem_undeclaredIn hg
  have hnumber := (eq_of_tokenRange_eq hline hline' htoken htoken' heq).1
  omega

end Document

/-! ## Dropping repeats -/

/-- Findings of different ranges are all kept, whatever their messages say. -/
lemma withoutRepeats_eq_self (locale : Locale) {seen : List (Range × String)} {fs : List Finding}
    (hfs : fs.Pairwise fun f g => f.range ≠ g.range)
    (hseen : ∀ f ∈ fs, ∀ said ∈ seen, said.1 ≠ f.range) : withoutRepeats locale seen fs = fs := by
  induction fs generalizing seen with
  | nil => rfl
  | cons f rest ih =>
    obtain ⟨hf, hrest⟩ := pairwise_cons.mp hfs
    have hnew : (f.range, f.cause.message locale) ∉ seen := fun hmem =>
      hseen f mem_cons_self _ hmem rfl
    have hlater : ∀ g ∈ rest, ∀ said ∈ (f.range, f.cause.message locale) :: seen,
        said.1 ≠ g.range :=
      fun g hg => forall_mem_cons.mpr ⟨hf g hg, hseen g (mem_cons_of_mem _ hg)⟩
    rw [withoutRepeats, if_neg (by simpa using hnew), ih hrest hlater]

/-- **The search for undeclared names repeats nothing**, in any language. -/
lemma withoutRepeats_undeclared (locale : Locale) (text : Text) (view : WorkspaceView) :
    withoutRepeats locale [] (undeclared (ofText text view)) = undeclared (ofText text view) :=
  withoutRepeats_eq_self locale (pairwise_range_undeclared text view) fun _ _ _ h => nomatch h

end Finding
end KrlWorkbench
