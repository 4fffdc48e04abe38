import KrlWorkbench.Proofs.Finding.DeadStatements

/-!
# Warnings that depend on the lines above

Two checks walk over the lines and carry something along: whether the line at hand is reached, and
which frames the routine has set.  What such a walk says about a line is a matter of that line and
the lines above it (`eq_flatMap_zipIdx`), and what it carries along is told by the lines above
alone.  Nothing leads on to a line if one above it leaves and none between the two is reached again
(`deadAfter_iff`); a frame is set if a line since the last header sets it (`get_foldl_next`).
-/

namespace KrlWorkbench.Finding

open List Code Text

/-- A walk that goes on by one line at a time, told line by line. -/
lemma eq_flatMap_zipIdx {α β : Type} (walk : List α → List β) (say : List α → Nat → α → List β)
    (hnil : walk [] = [])
    (hnext : ∀ above line, walk (above ++ [line]) = walk above ++ say above above.length line)
    (lines : List α) :
    walk lines = lines.zipIdx.flatMap fun entry => say (lines.take entry.2) entry.2 entry.1 := by
  induction lines using reverseRecOn with
  | nil => exact hnil
  | append_singleton above line ih =>
    have habove : ∀ entry ∈ above.zipIdx, (above ++ [line]).take entry.2 = above.take entry.2 := by
      intro entry hentry
      exact take_append_of_le_length (snd_lt_of_mem_zipIdx hentry).le
    rw [hnext, ih, zipIdx_append, flatMap_append]
    congr 1
    · exact flatMap_congr fun entry hentry => by rw [habove entry hentry]
    · simp

/-! ## Statements that are never reached -/

/-- One of the lines leaves, and no line below it is reached again. -/
def CutsOff (above : List Text) : Prop :=
  ∃ before raw between, above = before ++ raw :: between ∧ LineRule.exit.holds (clean raw) = true ∧
    ∀ line ∈ between, restores (clean line) = false

lemma deadAfter_iff (above : List Text) : deadAfter false above = true ↔ CutsOff above := by
  induction above using reverseRecOn with
  | nil => simp [deadAfter, CutsOff]
  | append_singleton above line ih =>
    have hstep : deadAfter false (above ++ [line]) = deadNext (deadAfter false above) line := by
      rw [deadAfter, foldl_append]
      rfl
    rw [hstep, deadNext, Bool.or_eq_true, Bool.and_eq_true, ih, Bool.not_eq_true']
    constructor
    · rintro (⟨⟨before, raw, between, rfl, hraw, hbetween⟩, hline⟩ | hline)
      · refine ⟨before, raw, between ++ [line], by simp, hraw, ?_⟩
        exact forall_mem_append.mpr ⟨hbetween, forall_mem_singleton.mpr hline⟩
      · exact ⟨above, line, [], rfl, hline, by simp⟩
    · rintro ⟨before, raw, between, habove, hraw, hbetween⟩
      rcases eq_nil_or_concat between with rfl | ⟨between, last, rfl⟩
      · obtain ⟨-, rfl⟩ := append_singleton_inj.mp habove
        exact .inr hraw
      · rw [concat_eq_append] at hbetween habove
        rw [← cons_append, ← append_assoc] at habove
        obtain ⟨rfl, rfl⟩ := append_singleton_inj.mp habove
        obtain ⟨hbetween, hline⟩ := forall_mem_append.mp hbetween
        exact .inl ⟨⟨before, raw, between, rfl, hraw, hbetween⟩, hline _ mem_cons_self⟩

instance (above : List Text) : Decidable (CutsOff above) :=
  decidable_of_iff _ (deadAfter_iff above)

/-- **Warnings about dead code are exact.**  They are, line by line and once each, those for the
statements that are neither reached again nor a label and that the lines above cut off. -/
theorem deadCode_diagnostics_exact (text : Text) (isSystemFile : Bool) (view : WorkspaceView)
    (options : Options) :
    (diagnose text isSystemFile view options).filter Diagnostic.isDeadCode =
      text.lines.zipIdx.flatMap fun (raw, n) =>
        if isStatement raw = true ∧ restores (clean raw) = false ∧ CutsOff (text.lines.take n) then
          [Diagnostic.deadCode options.locale (codePlace n raw)]
        else [] := by
  have hwalk := eq_flatMap_zipIdx (deadPlaces false 0)
    (fun above n raw => if deadAfter false above && isLost raw then [codePlace n raw] else []) rfl
    (fun above raw => by rw [deadPlaces_append, Nat.zero_add, deadPlaces, deadPlaces, append_nil])
    text.lines
  rw [filter_isDeadCode, hwalk, map_flatMap]
  refine flatMap_congr fun entry _ => ?_
  simp only [isLost, Bool.and_eq_true, deadAfter_iff, Bool.not_eq_true']
  split_ifs <;> simp_all

/-! ## Motions without a frame -/

/-- The two frames that a motion needs. -/
inductive FrameKind where
  | tool
  | base

def Frames.get (f : Frames) : FrameKind → Bool
  | .tool => f.tool
  | .base => f.base

namespace FrameKind

def assignment : FrameKind → LineRule
  | .tool => .toolAssignment
  | .base => .baseAssignment

/-- The cause to report where the frame is not set. -/
def missing : FrameKind → Cause
  | .tool => .toolNotInitialized
  | .base => .baseNotInitialized

/-- Whether a line sets the frame, by itself or with the other one. -/
def isSetBy (kind : FrameKind) (code : Text) : Bool :=
  kind.assignment.holds code || LineRule.motionDefaults.holds code

end FrameKind

/-- The lines below the last header, last first. -/
def sinceHeader (codes : List Text) : List Text :=
  codes.reverse.takeWhile fun code => !Routine.isHeader code

/-- The keyword of a line that moves the robot. -/
def motionKeyword? (code : Text) : Option Capture :=
  (LineRule.motion.find? code).bind (·.group? 1)

/-- The frames that are set below a line. -/
def Frames.next (f : Frames) (code : Text) : Frames :=
  if Routine.isHeader code then ⟨false, false⟩ else f.after code

/-- The frames set so far are those that a line since the last header sets. -/
lemma get_foldl_next (kind : FrameKind) (codes : List Text) :
    (codes.foldl Frames.next ⟨false, false⟩).get kind = (sinceHeader codes).any kind.isSetBy := by
  induction codes using reverseRecOn with
  | nil => cases kind <;> rfl
  | append_singleton above code ih =>
    rw [foldl_append, foldl_cons, foldl_nil, Frames.next, sinceHeader, reverse_concat,
      takeWhile_cons, ← sinceHeader]
    cases Routine.isHeader code with
    | true => cases kind <;> rfl
    | false =>
      rw [if_neg (by simp), if_pos (by simp), any_cons, ← ih, Bool.or_comm]
      cases kind <;> exact Bool.or_assoc _ _ _

lemma motionFrom_concat (ctx : Context) (f : Frames) (lines : List SourceLine) (line : SourceLine) :
    motionFrom ctx f (lines ++ [line]) = motionFrom ctx f lines ++
      motionFrom ctx ((lines.map (·.code)).foldl Frames.next f) [line] := by
  induction lines generalizing f with
  | nil => rfl
  | cons first lines ih =>
    rw [cons_append, motionFrom, motionFrom, map_cons, foldl_cons, Frames.next, Routine.isHeader]
    dsimp only
    split_ifs
    · exact ih _
    · rw [ih, append_assoc]

lemma filter_motionFrom_singleton (ctx : Context) (f : Frames) (line : SourceLine)
    (kind : FrameKind) :
    (motionFrom ctx f [line]).filter (·.cause.code == kind.missing.code) =
      if Routine.isHeader line.code || (f.next line.code).get kind then []
      else (motionKeyword? line.code).toList.map fun keyword =>
        ⟨ctx.span line.number keyword.start (byteLength keyword.text), kind.missing⟩ := by
  rw [motionFrom, ← Routine.isHeader, Frames.next]
  cases Routine.isHeader line.code with
  | true => rfl
  | false =>
    simp only [motionFrom, append_nil, Bool.false_eq_true, if_false, Bool.false_or]
    rw [motionIn, ← motionKeyword?]
    obtain ⟨tool, base⟩ := f.after line.code
    cases motionKeyword? line.code with
    | none => simp
    | some keyword => cases kind <;> cases tool <;> cases base <;> rfl

lemma isSome_motionKeyword? (code : Text) :
    (motionKeyword? code).isSome = LineRule.motion.holds code := by
  rw [motionKeyword?, LineRule.holds, Pattern.isIn, ← LineRule.find?]
  cases h : LineRule.motion.find? code with
  | none => rfl
  | some found => exact LineRule.isSome_group? rfl h

/-- The check for one of the frames, line by line. -/
lemma filter_motions (text : Text) (view : WorkspaceView) (kind : FrameKind) :
    (motions (.ofText text view)).filter (·.cause.code == kind.missing.code) =
      text.lines.zipIdx.flatMap fun (raw, n) =>
        if Routine.isHeader (clean raw) ||
          (sinceHeader ((text.lines.take (n + 1)).map clean)).any kind.isSetBy then []
        else (motionKeyword? (clean raw)).toList.map fun keyword =>
          ⟨text.span n keyword.start (byteLength keyword.text), kind.missing⟩ := by
  let lineOf (entry : Text × Nat) : SourceLine :=
    ⟨entry.2, entry.1, clean entry.1, LineKind.ofLine (Context.ofText text view).types entry.1⟩
  have hcodes : ∀ raws : List Text, (raws.zipIdx.map lineOf).map (·.code) = raws.map clean := by
    intro raws
    rw [map_map, ← zipIdx_map_fst 0 raws, map_map, zipIdx_map_fst]
    rfl
  -- The walk from line to line is a condition on the lines above each.
  have hwalk := eq_flatMap_zipIdx
    (fun raws => motionFrom (.ofText text view) ⟨false, false⟩ (raws.zipIdx.map lineOf))
    (fun above n raw => motionFrom (.ofText text view)
      ((above.map clean).foldl Frames.next ⟨false, false⟩) [lineOf (raw, n)]) rfl
    (fun above raw => by
      rw [zipIdx_append, map_append, Nat.zero_add, ← hcodes]
      exact motionFrom_concat _ _ _ _)
    text.lines
  refine (congrArg _ hwalk).trans ?_
  rw [filter_flatMap]
  refine flatMap_congr fun (raw, n) hentry => ?_
  have htake : text.lines.take (n + 1) = text.lines.take n ++ [raw] := by
    rw [take_add_one, (mk_mem_zipIdx_iff_getElem?.mp hentry), Option.toList_some]
  dsimp only
  rw [filter_motionFrom_singleton, ← get_foldl_next, htake, map_append, foldl_append]
  rfl

/-- **Warnings about frames are exact.** They are, line by line and once each, those for the motions
outside a header such that no line from below the last header on, the motion itself included, sets
the frame, and each stands at the keyword of its motion. -/
theorem frame_diagnostics_exact (text : Text) (isSystemFile : Bool) (view : WorkspaceView)
    (options : Options) (kind : FrameKind) :
    (diagnose text isSystemFile view options).filter (·.code? == some kind.missing.code) =
      (text.lines.zipIdx.flatMap fun (raw, n) =>
        if Routine.isHeader (clean raw) ||
          (sinceHeader ((text.lines.take (n + 1)).map clean)).any kind.isSetBy then []
        else (motionKeyword? (clean raw)).toList.map fun keyword =>
          Diagnostic.ofFinding options.locale
            ⟨text.span n keyword.start (byteLength keyword.text), kind.missing⟩) ∧
    ∀ code, (motionKeyword? code).isSome = LineRule.motion.holds code := by
  refine ⟨?_, isSome_motionKeyword?⟩
  have hcode : (fun d => d.code? == some kind.missing.code) ∘ Diagnostic.ofFinding options.locale =
      fun f => f.cause.code == kind.missing.code &&
        decide (f.cause.code ∈ [FindingCode.toolNotInitialized, .baseNotInitialized]) := by
    funext f
    rw [Function.comp, Diagnostic.code?_ofFinding]
    cases kind <;> cases f.cause.code <;> rfl
  rw [diagnose, filter_map, hcode, ← filter_filter, filter_report (i := 10) rfl, filter_motions,
    map_flatMap]
  refine flatMap_congr fun entry _ => ?_
  dsimp only
  split_ifs
  · rfl
  · rw [map_map]
    rfl

end KrlWorkbench.Finding
