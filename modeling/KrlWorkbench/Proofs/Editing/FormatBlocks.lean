import KrlWorkbench.Finding.Report
import KrlWorkbench.Proofs.CaseIndependence.Patterns
import KrlWorkbench.Proofs.Code.BlockKeywords
import KrlWorkbench.Proofs.Editing.FormatContent
import KrlWorkbench.Proofs.Finding.BlockNesting

/-!
# Formatting keeps the blocks

A document that is laid out has the block keywords it had before, in the same order, so the check of
blocks says about it what it said before, at other places.

What the block keywords of a line are, apart from their columns, is told by its trimmed text in
upper case (`blockShapes`).  Laying out keeps that text for every line that is not blank, and blank
lines hold no keyword (`flatMap_blockShapes_format`).  The check of blocks reads nothing of a
keyword but its kind and its direction (`Finding.map_cause_balanceFrom`).
-/

namespace KrlWorkbench

open List BlockEvent Code Text

/-! ## Documents -/

/-- The block keywords of a line without their places. -/
def blockShapes (line : Text) : List (BlockKind × Bool) :=
  (ofLine (clean line) 0).map shape

lemma map_shape_ofLine (line : Text) (number : Nat) :
    (ofLine (clean line) number).map shape = blockShapes line := by
  have h := map_shape_ofLine_surrounded isBlanks_nil isBlanks_nil (clean line)
    number 0
  rwa [nil_append, append_nil] at h

lemma blockShapes_trim (line : Text) : blockShapes (trim line) = blockShapes line := by
  obtain ⟨lead, tail, hlead, htail, hclean⟩ := exists_clean_eq line
  rw [blockShapes, blockShapes, hclean]
  exact (map_shape_ofLine_surrounded hlead htail _ 0 0).symm

lemma blockShapes_upper (line : Text) : blockShapes (upper line) = blockShapes line := by
  rw [blockShapes, clean_upper, ofLine_upper, blockShapes]

lemma blockShapes_nil : blockShapes [] = [] := by
  decide +kernel

namespace Layout

lemma blockShapes_content (line : Text) : blockShapes (content line) = blockShapes line := by
  rw [← blockShapes_upper, content, upper_raiseKeywords, blockShapes_upper, blockShapes_trim]

lemma flatMap_blockShapes_solidLines (lines : List Text) :
    (solidLines lines).flatMap blockShapes = lines.flatMap blockShapes := by
  induction lines with
  | nil => rfl
  | cons line lines ih =>
    by_cases h : trim line = []
    · rw [solidLines_cons_of_blank h, ih, flatMap_cons, ← blockShapes_trim, h, blockShapes_nil,
        nil_append]
    · rw [solidLines_cons_of_solid h, flatMap_cons, ih, flatMap_cons]

/-- Laying out lines keeps their block keywords: the lines that are not blank say what they said. -/
lemma flatMap_blockShapes_laidLines (o : Options) (text : Text) :
    (solidLines (laidLines o text)).flatMap blockShapes = (linesOf text).flatMap blockShapes := by
  have htrim := flatMap_map trim blockShapes (l := solidLines (laidLines o text))
  simp only [blockShapes_trim] at htrim
  rw [← htrim, laidLines, map_trim_solidLines_layLines, flatMap_map]
  simp only [blockShapes_content]
  exact flatMap_blockShapes_solidLines _

/-- The piece behind the last break holds no block keyword if it counts as no line. -/
lemma flatMap_blockShapes_linesOf (text : Text) :
    (linesOf text).flatMap blockShapes = text.lines.flatMap blockShapes := by
  unfold linesOf
  dsimp only
  split
  case isTrue hlast =>
    obtain ⟨front, hfront⟩ := getLast?_eq_some_iff.mp (beq_iff_eq.mp hlast)
    rw [hfront, dropLast_concat, flatMap_append]
    simp [blockShapes_nil]
  case isFalse => rfl

lemma flatMap_blockShapes_format (o : Options) (text : Text) :
    (format o text).lines.flatMap blockShapes = text.lines.flatMap blockShapes := by
  rw [← flatMap_blockShapes_linesOf, ← flatMap_blockShapes_solidLines, solidLines_linesOf_format,
    flatMap_blockShapes_laidLines, flatMap_blockShapes_linesOf]

end Layout

namespace Finding

lemma map_shape_blockEvents (text : Text) (view : WorkspaceView) :
    (blockEvents (Context.ofText text view)).map shape = text.lines.flatMap blockShapes := by
  rw [blockEvents, map_flatMap, Context.ofText, flatMap_map]
  have hline : ∀ entry ∈ text.lines.zipIdx,
      (ofLine (clean entry.1) entry.2).map shape =
        blockShapes entry.1 := fun entry _ => map_shape_ofLine entry.1 entry.2
  rw [flatMap_congr hline, ← flatMap_map Prod.fst, zipIdx_map_fst]

/-! ## The check of blocks -/

/-- The open blocks below the nearest one of a kind have the same kinds if all open blocks do. -/
lemma map_kind_dropWhile (kind : BlockKind) (stack : List BlockEvent) :
    (stack.dropWhile fun o => o.kind != kind).map (·.kind) =
      (stack.map (·.kind)).dropWhile (· != kind) := by
  rw [dropWhile_map]
  rfl

/-- **Run.**  What the check of blocks says depends on the kinds of the open blocks and on the kinds
and directions of the keywords. -/
lemma map_cause_balanceFrom {ctx ctx' : Context} {stack stack' events events' : List BlockEvent}
    (hstack : stack.map (·.kind) = stack'.map (·.kind))
    (hevents : events.map shape = events'.map shape) :
    (balanceFrom ctx stack events).map (·.cause) =
      (balanceFrom ctx' stack' events').map (·.cause) := by
  -- On the keywords; the two stacks agree in their kinds all along.
  induction events generalizing stack stack' events' with
  | nil =>
    obtain rfl : events' = [] := by simpa using hevents.symm
    have hcauses : ∀ (ctx : Context) (stack : List BlockEvent),
        (balanceFrom ctx stack []).map (·.cause) =
          (stack.map (·.kind)).reverse.map fun kind => .unclosedBlock kind.opener kind.closer := by
      intro ctx stack
      rw [balanceFrom, map_map, ← map_reverse, map_map]
      rfl
    rw [hcauses, hcauses, hstack]
  | cons event rest ih =>
    obtain ⟨event', rest', rfl, hevent, hrest⟩ := map_eq_cons_iff.mp hevents.symm
    obtain ⟨hkind, hopens⟩ := Prod.mk.inj hevent
    replace hrest := hrest.symm
    cases hdir : event.opens with
    | true =>
      rw [balanceFrom_opener hdir, balanceFrom_opener (hopens.trans hdir)]
      refine ih ?_ hrest
      rw [map_cons, map_cons, hstack, hkind]
    | false =>
      have hdrop : (stack.dropWhile fun o => o.kind != event.kind).map (·.kind) =
          (stack'.dropWhile fun o => o.kind != event'.kind).map (·.kind) := by
        rw [map_kind_dropWhile, map_kind_dropWhile, hstack, hkind]
      cases hfound : stack.dropWhile fun o => o.kind != event.kind with
      | nil =>
        rw [hfound, map_nil] at hdrop
        have hfound' := map_eq_nil_iff.mp hdrop.symm
        rw [balanceFrom_unexpected hdir hfound, balanceFrom_unexpected (hopens.trans hdir) hfound',
          map_cons, map_cons, ih hstack hrest, hkind]
      | cons opened below =>
        rw [hfound, map_cons] at hdrop
        obtain ⟨opened', below', hfound', -, hbelow⟩ := map_eq_cons_iff.mp hdrop.symm
        obtain ⟨top, outer, rfl⟩ := exists_cons_of_ne_nil (l := stack) (by
          rintro rfl
          simp at hfound)
        obtain ⟨top', outer', rfl, htop, -⟩ := map_eq_cons_iff.mp hstack.symm
        rw [balanceFrom_closing hdir hfound, balanceFrom_closing (hopens.trans hdir) hfound',
          map_append, map_append, ih hbelow.symm hrest, hkind, htop]
        split <;> rfl

end Finding

namespace Diagnostic

/-- Whether two diagnostics differ in their ranges only. -/
def SameButRange (d d' : Diagnostic) : Prop :=
  { d with range := d'.range } = d'

/-- Findings of the same causes are published as diagnostics that differ in their ranges only. -/
lemma forall₂_sameButRange_of_map_cause (locale : Locale) {fs fs' : List Finding}
    (h : fs.map (·.cause) = fs'.map (·.cause)) :
    List.Forall₂ SameButRange (fs.map (ofFinding locale)) (fs'.map (ofFinding locale)) := by
  rw [← forall₂_eq_eq_eq, forall₂_map_left_iff, forall₂_map_right_iff] at h
  rw [forall₂_map_left_iff, forall₂_map_right_iff]
  refine h.imp fun f f' hcause => ?_
  simp only [SameButRange, ofFinding, hcause]

end Diagnostic

/-- **Formatting keeps the blocks.**  The laid-out document has the block keywords of the document,
of the same kinds and directions in the same order.  The check of blocks reports on it what it
reports on the document, in the same order and up to the ranges. -/
theorem format_keeps_blocks (o : Layout.Options) (text : Text) (view view' : WorkspaceView)
    (locale : Locale) :
    let before := Context.ofText text view
    let after := Context.ofText (Layout.format o text) view'
    (Finding.blockEvents after).map BlockEvent.shape =
        (Finding.blockEvents before).map BlockEvent.shape ∧
      List.Forall₂ Diagnostic.SameButRange
        ((Finding.balance after).map (Diagnostic.ofFinding locale))
        ((Finding.balance before).map (Diagnostic.ofFinding locale)) := by
  intro before after
  have hshapes : (Finding.blockEvents after).map BlockEvent.shape =
      (Finding.blockEvents before).map BlockEvent.shape := by
    rw [Finding.map_shape_blockEvents, Finding.map_shape_blockEvents,
      Layout.flatMap_blockShapes_format]
  exact ⟨hshapes,
    Diagnostic.forall₂_sameButRange_of_map_cause locale (Finding.map_cause_balanceFrom rfl hshapes)⟩

end KrlWorkbench
