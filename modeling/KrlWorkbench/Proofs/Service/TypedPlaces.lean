import KrlWorkbench.Proofs.Code.Declarators
import KrlWorkbench.Proofs.Text.Positions

/-!
# The line up to a position

Help with a call and completion read the line up to a position and nothing behind it.  A position is
resolved exactly if it stands behind a part of its line, and that part is what they read.
-/

namespace KrlWorkbench

open List Code Text

variable {text a b : Text} {n : Nat} {p : Position} {place : KrlWorkbench.Place}

/-! ## Resolving a position -/

namespace Place

/-- The position behind the part `a` of a line is resolved. -/
lemma at?_of_lines (h : text.lines[n]? = some (a ++ b)) :
    at? text ⟨n, unitLength a⟩ = some ⟨text.lines, n, a ++ b, byteLength a⟩ := by
  obtain ⟨before, -, -, hstart, -⟩ := exists_lineStart h
  have hcolumn : text.columnOf ⟨n, unitLength a⟩ = some (byteLength a) := by
    simp [columnOf, offset_lineStart h hstart, hstart]
  simp [at?, h, hcolumn]

@[simp] lemma before_mk (lines : List Text) (n : Nat) (a b : Text) :
    before ⟨lines, n, a ++ b, byteLength a⟩ = a :=
  takeBytes_append a b

lemma exists_of_at? (h : at? text p = some place) :
    ∃ a b, text.lines[p.line]? = some (a ++ b) ∧ p.character = unitLength a ∧
      place = ⟨text.lines, p.line, a ++ b, byteLength a⟩ := by
  simp only [at?, columnOf, Option.bind_eq_bind, Option.bind_eq_some_iff, Option.pure_def,
    Option.some.injEq] at h
  obtain ⟨l, hl, column, ⟨here, hhere, start, hstart, rfl⟩, rfl⟩ := h
  obtain ⟨start', a, b, hline, hstart', hunits, rfl⟩ := exists_of_offset hhere
  obtain rfl : start' = start := Option.some.inj (hstart'.symm.trans hstart)
  obtain rfl : l = a ++ b := Option.some.inj (hl.symm.trans hline)
  exact ⟨a, b, hline, hunits, by rw [Nat.add_sub_cancel_left]⟩

end Place

/-! ## Comments -/

lemma Text.IsCode.commentStart_eq (h : IsCode a) : commentStart a = none := by
  rw [commentStart, h.codePart_eq, if_neg (Nat.lt_irrefl _)]

end KrlWorkbench
