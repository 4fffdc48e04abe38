import KrlWorkbench.Proofs.Finding.UsableRanges

/-!
# Statements that are never reached

Whether a line is reached depends on the lines above it, and what is reported of a line on its own
text.  So the search for statements that are never reached is a walk over the lines alone
(`deadPlaces`): no symbol, no type and no other file has a part in it.  A list of lines that is cut
in two is walked through in two steps, and only one bit passes from the first to the second
(`deadPlaces_append`).
-/

namespace KrlWorkbench

open List Code Text

variable {number : Nat}

/-! ## Lines that hold code -/

/-- Whether a line holds code, and not blanks, a comment or an attribute of the file alone. -/
def isStatement (raw : Text) : Bool :=
  (LineKind.ofLine [] raw).isCode

lemma LineKind.isCode_ofCode (types : List Text) (code : Text) :
    (ofCode types code).isCode = true := by
  rw [ofCode]
  cases LineRule.typeDefinition.find? code <;> dsimp only <;> split_ifs <;> rfl

/-- Known types tell what a line of code is for, not whether it is one. -/
lemma LineKind.isCode_ofLine (types : List Text) (raw : Text) :
    (ofLine types raw).isCode = isStatement raw := by
  unfold isStatement ofLine
  dsimp only
  split_ifs
  · rfl
  · rfl
  · rfl
  · rw [isCode_ofCode, isCode_ofCode]

namespace Finding

/-! ## The walk over the lines -/

/-- Whether a line is reported, if nothing above it leads on to it. -/
def isLost (raw : Text) : Bool :=
  !restores (clean raw) && isStatement raw

/-- Whether the line below is cut off, where `dead` tells it of the line itself. -/
def deadNext (dead : Bool) (raw : Text) : Bool :=
  (dead && !restores (clean raw)) || LineRule.exit.holds (clean raw)

/-- Where the code of a line ends, as a byte column. -/
def codeEnd (raw : Text) : Nat :=
  indentBytes (clean raw) + byteLength (trim (clean raw))

/-- The range of the code of line `number`, without the blanks around it. -/
def codePlace (number : Nat) (raw : Text) : Range :=
  ⟨⟨number, unitLength (takeBytes (indentBytes (clean raw)) raw)⟩,
    ⟨number, unitLength (takeBytes (codeEnd raw) raw)⟩⟩

/-- The places of the statements that are never reached, in lines from line `number` on. -/
def deadPlaces : Bool → Nat → List Text → List Range
  | _, _, [] => []
  | dead, number, raw :: rest =>
    (if dead && isLost raw then [codePlace number raw] else []) ++
      deadPlaces (deadNext dead raw) (number + 1) rest

/-- Whether what follows the lines is cut off. -/
def deadAfter (dead : Bool) (lines : List Text) : Bool :=
  lines.foldl deadNext dead

lemma codeEnd_le (raw : Text) : codeEnd raw ≤ byteLength raw := by
  have hcode := indentBytes_add_byteLength_trim_le (prefix_refl (clean raw))
  have hprefix := byteLength_le_of_isPrefix (codePart_isPrefix raw)
  rw [byteLength_clean] at hcode
  exact hcode.trans hprefix

lemma codeRange_eq {text raw : Text} {view : WorkspaceView} {kind : LineKind}
    (h : text.lines[number]? = some raw) :
    (Context.ofText text view).codeRange ⟨number, raw, clean raw, kind⟩ = codePlace number raw :=
  span_eq h (codeEnd_le raw)

lemma deadFrom_zipIdx {text : Text} (view : WorkspaceView) (types : List Text) {raws : List Text}
    (h : text.lines.drop number = raws) (isDead : Bool) :
    deadFrom (Context.ofText text view) isDead ((raws.zipIdx number).map fun (raw, i) =>
        ⟨i, raw, clean raw, LineKind.ofLine types raw⟩) =
      (deadPlaces isDead number raws).map (Finding.mk · .deadCode) := by
  induction raws generalizing number isDead with
  | nil => rfl
  | cons raw rest ih =>
    have hraw : text.lines[number]? = some raw := by
      rw [← head?_drop, h, head?_cons]
    have hrest : text.lines.drop (number + 1) = rest := by
      rw [← tail_drop, h, tail_cons]
    rw [zipIdx_cons, map_cons, deadFrom, deadPlaces, ih hrest, ih hrest,
      codeRange_eq hraw, LineKind.isCode_ofLine]
    cases isDead <;> cases hrestores : restores (clean raw) <;>
      cases hstatement : isStatement raw <;> simp [isLost, deadNext, hrestores, hstatement]

/-- **The search for lost statements reads the lines alone.** -/
lemma dead_eq (text : Text) (view : WorkspaceView) :
    dead (Context.ofText text view) =
      (deadPlaces false 0 text.lines).map (Finding.mk · .deadCode) :=
  deadFrom_zipIdx view _ drop_zero false

/-! ## Cutting the lines in two -/

lemma deadPlaces_append (dead : Bool) (number : Nat) (above below : List Text) :
    deadPlaces dead number (above ++ below) =
      deadPlaces dead number above ++
        deadPlaces (deadAfter dead above) (number + above.length) below := by
  induction above generalizing dead number with
  | nil => rfl
  | cons raw above ih =>
    rw [cons_append, deadPlaces, deadPlaces, ih, append_assoc, length_cons,
      Nat.add_assoc, Nat.add_comm 1]
    rfl

/-- A statement that is reported has lines above that cut it off. -/
lemma exists_of_deadPlaces {dead : Bool} {lines : List Text} {r : Range} {before after : List Range}
    (h : deadPlaces dead number lines = before ++ r :: after) :
    ∃ above raw below, lines = above ++ raw :: below ∧ deadAfter dead above = true ∧
      isLost raw = true ∧ r = codePlace (number + above.length) raw ∧
      before = deadPlaces dead number above ∧
      after = deadPlaces true (number + above.length + 1) below := by
  induction lines generalizing dead number before with
  | nil => cases before <;> cases h
  | cons line lines ih =>
    -- The statement lies in a later line, behind a report for this one or behind none.
    have hlater : ∀ others, deadPlaces (deadNext dead line) (number + 1) lines =
        others ++ r :: after → ∃ above raw below, line :: lines = above ++ raw :: below ∧
          deadAfter dead above = true ∧ isLost raw = true ∧
          r = codePlace (number + above.length) raw ∧
          (if dead && isLost line then [codePlace number line] else []) ++ others =
            deadPlaces dead number above ∧
          after = deadPlaces true (number + above.length + 1) below := by
      intro others hrest
      obtain ⟨above, raw, below, rfl, hdead, hraw, rfl, rfl, rfl⟩ := ih hrest
      have hline := Nat.add_right_comm number 1 above.length
      exact ⟨line :: above, raw, below, rfl, hdead, hraw, congrArg (codePlace · raw) hline, rfl,
        congrArg (deadPlaces true · below) (congrArg (· + 1) hline)⟩
    rw [deadPlaces] at h
    cases hlost : dead && isLost line with
    | false =>
      rw [hlost] at h hlater
      exact hlater before h
    | true =>
      rw [hlost] at h hlater
      cases before with
      | cons first before =>
        obtain ⟨hfirst, hrest⟩ := List.cons.inj h
        exact hfirst ▸ hlater before hrest
      | nil =>
        obtain ⟨rfl, rfl⟩ := List.cons.inj h
        obtain ⟨rfl, hraw⟩ := Bool.and_eq_true_iff.mp hlost
        have hdead : deadNext true line = true :=
          Bool.or_eq_true_iff.mpr (.inl (Bool.and_eq_true_iff.mp hraw).1)
        exact ⟨[], line, lines, rfl, rfl, hraw, rfl, rfl, by rw [hdead]; rfl⟩

/-! ## The lines of the places -/

lemma line_of_mem_deadPlaces {dead : Bool} {lines : List Text} {r : Range}
    (h : r ∈ deadPlaces dead number lines) :
    r.stop.line = r.start.line ∧ number ≤ r.start.line ∧ r.start.line < number + lines.length := by
  obtain ⟨before, after, hsplit⟩ := append_of_mem h
  obtain ⟨above, raw, below, rfl, -, -, rfl, -, -⟩ := exists_of_deadPlaces hsplit
  refine ⟨rfl, Nat.le_add_right _ _, ?_⟩
  simp [codePlace]

lemma deadPlaces_succ (dead : Bool) (number : Nat) (lines : List Text) :
    deadPlaces dead (number + 1) lines =
      (deadPlaces dead number lines).map fun r =>
        ⟨⟨r.start.line + 1, r.start.character⟩, ⟨r.stop.line + 1, r.stop.character⟩⟩ := by
  induction lines generalizing dead number with
  | nil => rfl
  | cons raw rest ih =>
    rw [deadPlaces, deadPlaces, map_append, ← ih]
    split <;> rfl

end Finding

/-! ## The diagnostics -/

open Finding

/-- Whether a diagnostic is about a statement that is never reached. -/
def Diagnostic.isDeadCode (d : Diagnostic) : Bool :=
  d.code? == some .deadCode

/-- The diagnostic for a statement that is never reached. -/
def Diagnostic.deadCode (locale : Locale) (range : Range) : Diagnostic :=
  ofFinding locale ⟨range, .deadCode⟩

lemma Diagnostic.deadCode_injective (locale : Locale) : Function.Injective (deadCode locale) :=
  fun _ _ h => congrArg (·.range) h

lemma filter_isDeadCode (text : Text) (isSystemFile : Bool) (view : WorkspaceView)
    (options : Options) :
    (diagnose text isSystemFile view options).filter Diagnostic.isDeadCode =
      (deadPlaces false 0 text.lines).map (Diagnostic.deadCode options.locale) := by
  have hcode : Diagnostic.isDeadCode ∘ Diagnostic.ofFinding options.locale =
      fun f => decide (f.cause.code ∈ [FindingCode.deadCode]) := by
    funext f
    rw [Bool.eq_iff_iff]
    simp [Diagnostic.isDeadCode, Diagnostic.code?_ofFinding]
  rw [diagnose, filter_map, hcode, filter_report (i := 5) rfl, dead_eq, map_map]
  rfl

end KrlWorkbench
