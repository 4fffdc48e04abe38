import KrlWorkbench.Proofs.Finding.CheckCodes
import KrlWorkbench.Proofs.Text.Positions

/-!
# Every published range can be used

A client turns the range of a diagnostic back into a piece of the document.  It can: the range lies
in one line, its ends are in order and name places of the text, and it stays out of the comment,
unless the finding is about a character outside ASCII.

The checks report pieces of the code of a line (`Finding.reports_of_mem_checks`).  Only the one for
characters outside ASCII cuts its pieces out of the line itself.
-/

namespace KrlWorkbench

open List Text

variable {text : Text} {view : WorkspaceView} {limit : Text → Nat} {f : Finding}

/-! ## Ranges in a line -/

/-- The range lies in one line of the text, its ends are in order and resolve to offsets, and the
second is at most `limit` bytes into the line. -/
structure Range.Usable (text : Text) (limit : Text → Nat) (r : Range) : Prop where
  line_eq : r.stop.line = r.start.line
  le : r.start.le r.stop = true
  resolves : ∃ line start first last, text.lines[r.start.line]? = some line ∧
    lineStart r.start.line text = some start ∧ text.offset r.start = some (start + first) ∧
    text.offset r.stop = some (start + last) ∧ first ≤ last ∧ last ≤ limit line

/-- A piece of a line has a usable range, also where it cuts a character. -/
lemma usable_span {line : Text} {n column length : Nat}
    (h : text.lines[n]? = some line) (hle : column + length ≤ byteLength line)
    (hlimit : column + length ≤ limit line) : (text.span n column length).Usable text limit := by
  obtain ⟨before, -, -, hstart, -⟩ := exists_lineStart h
  have hoffset : ∀ k, text.offset ⟨n, unitLength (takeBytes k line)⟩ =
      some (byteLength before + byteLength (takeBytes k line)) := by
    intro k
    refine offset_lineStart (b := dropBytes k line) ?_ hstart
    rw [takeBytes_append_dropBytes, h]
  have hisPrefix := takeBytes_isPrefix_of_le (Nat.le_add_right column length) line
  rw [span_eq h hle]
  refine ⟨rfl, ?_, line, _, _, _, h, hstart, hoffset _, hoffset _,
    byteLength_le_of_isPrefix hisPrefix, ?_⟩
  · exact Position.le_iff.mpr (.inr ⟨rfl, unitLength_le_of_isPrefix hisPrefix⟩)
  · exact (byteLength_takeBytes_le _ line).trans hlimit

/-! ## The report -/

namespace Finding

lemma stop_le_of_mem_nonAsciiRuns {run rest : Text} {offset : Nat} {p : Capture}
    (hrun : byteLength run ≤ offset) (h : p ∈ nonAsciiRuns run offset rest) :
    p.start + byteLength p.text ≤ offset + byteLength rest := by
  have hflush : ∀ k, offset - byteLength run + byteLength run.reverse ≤ offset + k := by
    rw [byteLength_reverse]
    omega
  -- On the rest; the run that is being read lies in front of the offset.
  induction rest generalizing run offset with
  | nil =>
    rw [nonAsciiRuns] at h
    split at h
    case isTrue => simp at h
    case isFalse =>
      rw [mem_singleton.mp h]
      exact hflush _
  | cons c rest ih =>
    have hnext : ∀ run, byteLength run ≤ offset + c.utf8Size →
        p ∈ nonAsciiRuns run (offset + c.utf8Size) rest →
        p.start + byteLength p.text ≤ offset + byteLength (c :: rest) := by
      intro run hrun hp
      rw [byteLength_cons, ← Nat.add_assoc]
      refine ih hrun hp fun k => ?_
      rw [byteLength_reverse]
      omega
    rw [nonAsciiRuns] at h
    split at h
    case isTrue =>
      refine hnext _ ?_ h
      rw [byteLength_cons]
      omega
    case isFalse =>
      split at h
      case isTrue => exact hnext _ (by simp) h
      case isFalse =>
        rcases mem_cons.mp h with rfl | h
        · exact hflush _
        · exact hnext _ (by simp) h

lemma marksOneOf_or_nonAscii_of_mem_report {isSystemFile : Bool} {options : Options}
    (h : f ∈ report text isSystemFile view options) :
    MarksOneOf (Context.ofText text view) (Context.ofText text view).lines f ∨
      f ∈ nonAscii (Context.ofText text view) := by
  rw [report_eq_flatMap] at h
  obtain ⟨check, hcheck, hf⟩ := mem_flatMap.mp h
  rcases reports_of_mem_checks hcheck with hreports | ⟨-, hsub⟩
  · exact .inl (hreports f hf).2
  · exact .inr (hsub hf)

end Finding

lemma Finding.MarksOneOf.usable
    (h : MarksOneOf (Context.ofText text view) (Context.ofText text view).lines f) :
    f.range.Usable text fun line => byteLength (Code.codePart line) := by
  obtain ⟨line, hline, column, length, hle, hrange⟩ := h
  obtain ⟨hraw, hcode⟩ := Context.getElem?_of_mem_lines hline
  rw [hcode, Code.byteLength_clean] at hle
  have hpart := byteLength_le_of_isPrefix (Code.codePart_isPrefix line.raw)
  rw [hrange]
  exact usable_span hraw (hle.trans hpart) hle

lemma Range.Usable.mono {limit' : Text → Nat} {r : Range} (h : r.Usable text limit)
    (hlimit : ∀ line, limit line ≤ limit' line) : r.Usable text limit' := by
  obtain ⟨line, start, first, last, hline, hstart, hfrom, hto, hfirst, hlast⟩ := h.resolves
  exact ⟨h.line_eq, h.le, line, start, first, last, hline, hstart, hfrom, hto, hfirst,
    hlast.trans (hlimit line)⟩

lemma Finding.usable_of_mem_nonAscii (h : f ∈ nonAscii (Context.ofText text view)) :
    f.range.Usable text byteLength ∧ f.cause.code = .nonAsciiCharacter := by
  obtain ⟨line, hline, hf⟩ := mem_flatMap.mp h
  obtain ⟨run, hrun, rfl⟩ := mem_map.mp hf
  obtain ⟨hraw, -⟩ := Context.getElem?_of_mem_lines hline
  have hle := stop_le_of_mem_nonAsciiRuns (Nat.le_refl 0) hrun
  rw [Nat.zero_add] at hle
  exact ⟨usable_span hraw hle hle, rfl⟩

/-- **Every published range is usable.**  Whatever the document, the kind of file, the workspace and
the options, the range of a diagnostic lies in one line, its ends are in order and resolve to
offsets, and unless the diagnostic is about a character outside ASCII, it ends no later than the
code of its line. -/
theorem diagnose_ranges_usable (text : Text) (isSystemFile : Bool) (view : WorkspaceView)
    (options : Finding.Options) :
    ∀ d ∈ diagnose text isSystemFile view options,
      d.range.Usable text byteLength ∧
        (d.code ≠ some (.text "nonAsciiCharacter") →
          d.range.Usable text fun line => byteLength (Code.codePart line)) := by
  intro d hd
  obtain ⟨f, hf, rfl⟩ := mem_map.mp hd
  rcases Finding.marksOneOf_or_nonAscii_of_mem_report hf with hmarks | hnonAscii
  · refine ⟨hmarks.usable.mono fun line => ?_, fun _ => hmarks.usable⟩
    exact byteLength_le_of_isPrefix (Code.codePart_isPrefix line)
  · obtain ⟨husable, hcode⟩ := Finding.usable_of_mem_nonAscii hnonAscii
    refine ⟨husable, fun hne => absurd ?_ hne⟩
    rw [Diagnostic.ofFinding, hcode]
    rfl

/-- A statement that halts, found in front of a comment in which a character is found as well. -/
theorem diagnose_ranges_usable_halt :
    (∃ d ∈ diagnose "  HALT ; €".toList false {} {}, d.code = some (.text "haltStatement") ∧
      d.range.Usable "  HALT ; €".toList fun line => byteLength (Code.codePart line)) ∧
    ∃ d ∈ diagnose "  HALT ; €".toList false {} {}, d.code = some (.text "nonAsciiCharacter") ∧
      d.range.Usable "  HALT ; €".toList byteLength := by
  have hcodes : (diagnose "  HALT ; €".toList false {} {}).map (·.code) =
      [some (.text "haltStatement"), some (.text "nonAsciiCharacter")] := by
    decide +kernel
  have hfound : ∀ code ∈ (diagnose "  HALT ; €".toList false {} {}).map (·.code),
      ∃ d ∈ diagnose "  HALT ; €".toList false {} {}, d.code = code := by
    intro code hcode
    exact mem_map.mp hcode
  rw [hcodes] at hfound
  obtain ⟨d, hd, hcode⟩ := hfound (some (.text "haltStatement")) (by simp)
  obtain ⟨d', hd', hcode'⟩ := hfound (some (.text "nonAsciiCharacter")) (by simp)
  refine ⟨⟨d, hd, hcode, ?_⟩, d', hd', hcode', (diagnose_ranges_usable _ _ _ _ d' hd').1⟩
  exact (diagnose_ranges_usable _ _ _ _ d hd).2 (by rw [hcode]; decide)

end KrlWorkbench
