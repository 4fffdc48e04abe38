import KrlWorkbench.Proofs.Text.Lines
import KrlWorkbench.Proofs.Text.Pieces
import Mathlib.Data.List.Forall2

/-!
# Applying edits

The edits of an answer all speak about the same text, the one they were asked for, and name places
in it by positions.  `applyEdits` resolves every range in that text and writes the new texts
between what is kept.  It has no result if a position names no place or if the edits are not in
document order and apart from each other, so a result says that the edits were usable.
-/

namespace KrlWorkbench.Text

open List

variable {text new rest : Text} {here : Nat} {pieces : List Capture} {edits : List TextEdit}

/-- What the edits make of the text behind byte offset `here`. -/
def applyEditsFrom (text : Text) (here : Nat) : List TextEdit → Option Text
  | [] => some (dropBytes here text)
  | edit :: edits => do
    let start ← text.offset edit.range.start
    let stop ← text.offset edit.range.stop
    if here ≤ start ∧ start ≤ stop then
      let rest ← applyEditsFrom text stop edits
      return slice here start text ++ (edit.newText ++ rest)
    else none

/-- The text with edits applied. -/
def applyEdits (text : Text) (edits : List TextEdit) : Option Text :=
  applyEditsFrom text 0 edits

@[simp] lemma applyEdits_nil (text : Text) : text.applyEdits [] = some text := by
  simp [applyEdits, applyEditsFrom]

lemma applyEditsFrom_cons {before gap old : Text} {edit : TextEdit}
    (hstart : (before ++ (gap ++ (old ++ rest))).offset edit.range.start =
      some (byteLength before + byteLength gap))
    (hstop : (before ++ (gap ++ (old ++ rest))).offset edit.range.stop =
      some (byteLength before + byteLength gap + byteLength old))
    (hrest : applyEditsFrom (before ++ (gap ++ (old ++ rest)))
      (byteLength before + byteLength gap + byteLength old) edits = some new) :
    applyEditsFrom (before ++ (gap ++ (old ++ rest))) (byteLength before) (edit :: edits) =
      some (gap ++ (edit.newText ++ new)) := by
  have hslice : slice (byteLength before) (byteLength before + byteLength gap)
      (before ++ (gap ++ (old ++ rest))) = gap := by
    rw [slice, dropBytes_append, Nat.add_sub_cancel_left, takeBytes_append]
  simp [applyEditsFrom, hstart, hstop, hrest, hslice]

lemma applyEdits_wholeRange (text new : Text) :
    text.applyEdits [⟨text.wholeRange, new⟩] = some new := by
  obtain ⟨hstart, hstop⟩ := offset_wholeRange text
  simp [applyEdits, applyEditsFrom, hstart, hstop, slice]

/-! ## Edits at pieces -/

/-- In the text `text` the edit puts `new` in the place of the piece. -/
structure Resolves (text new : Text) (piece : Capture) (edit : TextEdit) : Prop where
  start : text.offset edit.range.start = some piece.start
  stop : text.offset edit.range.stop = some piece.stop
  newText : edit.newText = new

/-- Edits at pieces of a text are a replacement. -/
lemma applyEditsFrom_eq_substitute {before : Text} (htext : text = before ++ rest)
    (hedits : List.Forall₂ (Resolves text new) pieces edits)
    (hplaced : Placed (byteLength before) rest pieces) :
    applyEditsFrom text (byteLength before) edits =
      some (substitute (fun _ => new) (byteLength before) rest pieces) := by
  induction hedits generalizing before rest with
  | nil => rw [applyEditsFrom, htext, dropBytes_append, substitute_nil]
  | @cons piece edit pieces edits hedit _ ih =>
    cases hplaced with
    | @cons _ gap rest _ _ hstart hrest =>
      have hstop : piece.stop = byteLength before + byteLength gap + byteLength piece.text := by
        rw [Capture.stop, hstart]
      have hbytes : piece.stop = byteLength (before ++ (gap ++ piece.text)) := by
        rw [hstop, byteLength_append, byteLength_append, Nat.add_assoc]
      rw [hbytes] at hrest
      have hrec := ih (by rw [htext]; simp) hrest
      rw [← hbytes, hstop] at hrec
      subst htext
      rw [applyEditsFrom_cons (hstart ▸ hedit.start) (hstop ▸ hedit.stop) hrec,
        substitute_cons _ hstart, hedit.newText, hstop]

lemma le_start_of_resolves
    (hedits : List.Forall₂ (Resolves text new) pieces edits) (hplaced : Placed here rest pieces) :
    ∀ e ∈ edits, ∃ start, text.offset e.range.start = some start ∧ here ≤ start := by
  induction hedits generalizing here rest with
  | nil => simp
  | @cons piece edit pieces edits hedit _ ih =>
    cases hplaced with
    | cons hstart hrest =>
      intro e he
      rcases mem_cons.mp he with rfl | he
      · exact ⟨_, hedit.start, by omega⟩
      · obtain ⟨start, hoffset, hle⟩ := ih hrest e he
        have hstop : piece.start ≤ piece.stop := Nat.le_add_right _ _
        exact ⟨start, hoffset, by omega⟩

/-- Edits at pieces of a text are apart from each other and in the order of the text. -/
lemma pairwise_of_resolves
    (hedits : List.Forall₂ (Resolves text new) pieces edits) (hplaced : Placed here rest pieces) :
    edits.Pairwise fun e e' => ∃ stop start, text.offset e.range.stop = some stop ∧
      text.offset e'.range.start = some start ∧ stop ≤ start := by
  induction hedits generalizing here rest with
  | nil => exact .nil
  | cons hedit hedits ih =>
    cases hplaced with
    | cons _ hrest =>
      refine .cons (fun e' he' => ?_) (ih hrest)
      obtain ⟨start, hoffset, hle⟩ := le_start_of_resolves hedits hrest e' he'
      exact ⟨_, start, hedit.stop, hoffset, hle⟩

/-! ## Edits line by line -/

/-- The edits that put `new` in the place of some pieces of each line. -/
def lineEdits (text new : Text) (pieces : Text → List Capture) (lines : List (Text × Nat)) :
    List TextEdit :=
  lines.flatMap fun (line, number) =>
    (pieces line).map fun found => ⟨text.span number found.start (byteLength found.text), new⟩

lemma noBreak_substitute (hnew : NoBreak new) (htext : NoBreak text)
    (hplaced : Placed here text pieces) : NoBreak (substitute (fun _ => new) here text pieces) := by
  induction hplaced with
  | nil => exact htext
  | cons hstart _ ih =>
    obtain ⟨hgap, htext⟩ := noBreak_append.mp htext
    obtain ⟨-, hrest⟩ := noBreak_append.mp htext
    rw [substitute_cons _ hstart]
    exact noBreak_append.mpr ⟨hgap, noBreak_append.mpr ⟨hnew, ih hrest⟩⟩

/-- Pieces of line `number`, counted from the start of the text, are where the edits are made. -/
lemma forall₂_resolves {line : Text} {number start : Nat} (hline : text.lines[number]? = some line)
    (hstart : lineStart number text = some start) (hplaced : Placed 0 line pieces) :
    List.Forall₂ (Resolves text new) (pieces.map (Capture.shift start))
      (pieces.map fun found =>
        ⟨text.span number found.start (byteLength found.text), new⟩) := by
  rw [forall₂_map_left_iff, forall₂_map_right_iff, forall₂_same]
  intro piece hpiece
  obtain ⟨lead, rest, hsplit, hlead⟩ := hplaced.exists_append_of_mem hpiece
  rw [Nat.zero_add] at hlead
  rw [hsplit] at hline
  obtain ⟨hfrom, hto⟩ := offset_span hline hstart
  rw [← hlead] at hfrom hto
  refine ⟨hfrom, ?_, rfl⟩
  rw [hto, Capture.stop_shift, Capture.stop, Nat.add_assoc]

lemma substitute_eq_nil (hnew : new ≠ []) (hplaced : Placed here text pieces)
    (h : substitute (fun _ => new) here text pieces = []) : text = [] := by
  cases hplaced with
  | nil => exact h
  | cons hstart =>
    exact absurd (append_eq_nil_iff.mp (append_eq_nil_iff.mp h).2).1 hnew

lemma head?_ne_lineFeed {l : Text} (hl : NoBreak l) : l.head? ≠ some '\n' := by
  cases l with
  | nil => simp
  | cons c l => simpa using (noBreak_cons.mp hl).1.1

/-- The text is something and then `rest`, which begins with line `number` at byte `here`. -/
structure RestAt (text : Text) (number here : Nat) (rest : Text) : Prop where
  lines : ∀ i, text.lines[number + i]? = rest.lines[i]?
  starts : ∀ i, lineStart (number + i) text = (lineStart i rest).map (here + ·)

namespace RestAt

variable {l brk : Text} {number : Nat}

lemma self (text : Text) : RestAt text 0 0 text :=
  ⟨by simp, by simp⟩

lemma lineStart (h : RestAt text number here rest) : Text.lineStart number text = some here := by
  have hzero := h.starts 0
  simpa [Text.lineStart] using hzero

lemma getElem? (h : RestAt text number here rest) (hline : rest.lines[0]? = some l) :
    text.lines[number]? = some l := by
  rw [← hline, ← h.lines, Nat.add_zero]

lemma next (h : RestAt text number here (l ++ (brk ++ rest))) (hl : NoBreak l)
    (hbrk : IsBreak brk rest) :
    RestAt text (number + 1) (here + byteLength l + byteLength brk) rest where
  lines i := by
    have hline := h.lines (i + 1)
    rw [lines_append_break hl hbrk, getElem?_cons_succ] at hline
    rwa [Nat.add_assoc, Nat.add_comm 1 i]
  starts i := by
    rw [Nat.add_assoc, Nat.add_comm 1 i, h.starts, lineStart_succ_append_break hl hbrk,
      Option.map_map]
    simp [Function.comp_def, Nat.add_assoc]

end RestAt

/-- What the edits in the lines from `number` on come to: they are made at the pieces `found` of
`rest`, the lines of the edited `rest` are the edited lines, and its breaks are the same.  That no
line feed comes to the front keeps a carriage return before `rest` a break. -/
structure EditedRest (text new : Text) (pieces : Text → List Capture) (number here : Nat)
    (rest : Text) (found : List Capture) : Prop where
  placed : Placed here rest found
  resolves : List.Forall₂ (Resolves text new) found
    (lineEdits text new pieces (rest.lines.zipIdx number))
  lines : (substitute (fun _ => new) here rest found).lines =
    rest.lines.map fun l => substitute (fun _ => new) 0 l (pieces l)
  breaks : (substitute (fun _ => new) here rest found).breaks = rest.breaks
  head : rest.head? ≠ some '\n' → (substitute (fun _ => new) here rest found).head? ≠ some '\n'

section EditedRest

variable {pieces : Text → List Capture} {l brk : Text} {number : Nat} {found : List Capture}

lemma editedRest_last (hnew : NoBreak new) (hl : NoBreak l) (hplaced : Placed 0 l (pieces l))
    (h : RestAt text number here l) :
    EditedRest text new pieces number here l ((pieces l).map (Capture.shift here)) := by
  have hshift : substitute (fun _ => new) here l ((pieces l).map (Capture.shift here)) =
      substitute (fun _ => new) 0 l (pieces l) := substitute_shift new hplaced here
  have hnew' := noBreak_substitute hnew hl hplaced
  have hlines := lines_of_noBreak hl
  constructor
  · exact hplaced.shift here
  · rw [hlines]
    simpa [lineEdits] using forall₂_resolves (h.getElem? (by simp [hlines])) h.lineStart hplaced
  · rw [hshift, lines_of_noBreak hnew', hlines]
    rfl
  · rw [hshift, breaks_of_noBreak hnew', breaks_of_noBreak hl]
  · intro _
    rw [hshift]
    exact head?_ne_lineFeed hnew'

lemma editedRest_more (hnew : NoBreak new) (hne : new ≠ []) (hl : NoBreak l)
    (hbrk : IsBreak brk rest) (hplaced : Placed 0 l (pieces l))
    (h : RestAt text number here (l ++ (brk ++ rest)))
    (hrest : EditedRest text new pieces (number + 1) (here + byteLength l + byteLength brk) rest
      found) :
    EditedRest text new pieces number here (l ++ (brk ++ rest))
      ((pieces l).map (Capture.shift here) ++ found) := by
  have hnew' := noBreak_substitute hnew hl hplaced
  have hlines := lines_append_break hl hbrk
  have hline : Placed here l ((pieces l).map (Capture.shift here)) := hplaced.shift here
  have hbehind : Placed (here + byteLength l) (brk ++ rest) found := hrest.placed.append_left
  have hsub : substitute (fun _ => new) here (l ++ (brk ++ rest))
      ((pieces l).map (Capture.shift here) ++ found) =
      substitute (fun _ => new) 0 l (pieces l) ++
        (brk ++ substitute (fun _ => new) (here + byteLength l + byteLength brk) rest found) := by
    rw [substitute_append hline hbehind, substitute_append_left hrest.placed]
    exact congrArg (· ++ _) (substitute_shift new hplaced here)
  -- No line feed comes up behind the break, so it stays one break.
  have hbrk' : IsBreak brk
      (substitute (fun _ => new) (here + byteLength l + byteLength brk) rest found) := by
    exact hbrk.imp_right (.imp_right (.imp_right hrest.head))
  constructor
  · exact hline.append hbehind
  · rw [hlines, zipIdx_cons, lineEdits, flatMap_cons]
    refine rel_append ?_ hrest.resolves
    exact forall₂_resolves (h.getElem? (by simp [hlines])) h.lineStart hplaced
  · rw [hsub, lines_append_break hnew' hbrk', hrest.lines, hlines, map_cons]
  · rw [hsub, breaks_append_break hnew' hbrk', hrest.breaks, breaks_append_break hl hbrk]
  · intro hhead
    rw [hsub]
    -- Nothing begins with a line feed that did not before: edits insert no break.
    cases hsubst : substitute (fun _ => new) 0 l (pieces l) with
    | nil =>
      obtain rfl := substitute_eq_nil hne hplaced hsubst
      rcases hbrk with rfl | rfl | ⟨rfl, -⟩
      · exact hhead
      · exact hhead
      · simp
    | cons c l' =>
      rw [hsubst] at hnew'
      simpa using (noBreak_cons.mp hnew').1.1

/-- The edits in the lines of the rest of a text, line by line. -/
lemma exists_editedRest (hnew : NoBreak new) (hne : new ≠ [])
    (hplaced : ∀ line ∈ text.lines, Placed 0 line (pieces line))
    (h : RestAt text number here rest) :
    ∃ found, EditedRest text new pieces number here rest found := by
  induction lined rest generalizing number here with
  | last hl =>
    have hline := h.getElem? (by rw [lines_of_noBreak hl]; rfl)
    exact ⟨_, editedRest_last hnew hl (hplaced _ (mem_of_getElem? hline)) h⟩
  | more hl hbrk _ ih =>
    have hline := h.getElem? (by rw [lines_append_break hl hbrk]; rfl)
    obtain ⟨found, hfound⟩ := ih (h.next hl hbrk)
    exact ⟨_, editedRest_more hnew hne hl hbrk (hplaced _ (mem_of_getElem? hline)) h hfound⟩

end EditedRest

/-- **Edits line by line.**  Putting `new` in the place of pieces of the lines gives a text whose
lines are the lines with `new` in these places, with the same breaks between them. -/
theorem exists_applyEdits_lineEdits (hnew : NoBreak new) (hne : new ≠ [])
    {pieces : Text → List Capture} (hplaced : ∀ line ∈ text.lines, Placed 0 line (pieces line)) :
    ∃ text', text.applyEdits (lineEdits text new pieces text.lines.zipIdx) = some text' ∧
      (text'.lines = text.lines.map fun l => substitute (fun _ => new) 0 l (pieces l)) ∧
      text'.breaks = text.breaks := by
  obtain ⟨found, hfound⟩ := exists_editedRest hnew hne hplaced (.self text)
  refine ⟨_, ?_, hfound.lines, hfound.breaks⟩
  exact @applyEditsFrom_eq_substitute text new text _ _ [] rfl hfound.resolves hfound.placed

lemma pairwise_lineEdits (hnew : NoBreak new) (hne : new ≠ []) {pieces : Text → List Capture}
    (hplaced : ∀ line ∈ text.lines, Placed 0 line (pieces line)) :
    (lineEdits text new pieces text.lines.zipIdx).Pairwise fun e e' =>
      ∃ stop start, text.offset e.range.stop = some stop ∧
        text.offset e'.range.start = some start ∧ stop ≤ start := by
  obtain ⟨found, hfound⟩ := exists_editedRest hnew hne hplaced (.self text)
  exact pairwise_of_resolves hfound.resolves hfound.placed

end KrlWorkbench.Text
