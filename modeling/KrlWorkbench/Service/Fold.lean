import KrlWorkbench.Code.Line
import KrlWorkbench.Code.Rule
import KrlWorkbench.Text.Document

/-!
# Folding

The lines that may be folded away: regions that comments mark, and the bodies of routines and data
lists.
-/

namespace KrlWorkbench

open Text

/-- Lines that can be folded away. -/
structure FoldRange where
  start : Nat
  stop : Nat
  /-- Marked by comments. -/
  isRegion : Bool
  label : Option Text
  deriving DecidableEq, Repr, Inhabited

/-- What a line does to the folds around it. -/
inductive FoldMark where
  | regionStart (label : Text)
  | regionEnd
  | bodyStart
  | bodyEnd
  | plain
  deriving DecidableEq, Repr

/-- The mark of a line; those in comments go before its code. -/
def FoldMark.ofLine (line : Text) : FoldMark :=
  match LineRule.foldOpen.find? line with
  | some found => .regionStart (trim ((dropBytes found.whole.stop line).takeWhile (· != ';')))
  | none =>
    if LineRule.foldClose.holds line then .regionEnd
    else
      let code := Code.codePart line
      if LineRule.scopeOpener.holds code then .bodyStart
      else if LineRule.scopeCloser.holds code then .bodyEnd
      else .plain

namespace FoldRange

/-- The folds that end in some lines; the stacks hold what is open before line `number`. -/
def scan (regions : List (Nat × Text)) (bodies : List Nat) (number : Nat) :
    List FoldMark → List FoldRange
  | [] => []
  | .regionStart label :: rest => scan ((number, label) :: regions) bodies (number + 1) rest
  | .regionEnd :: rest =>
    match regions with
    | (start, label) :: regions =>
      ⟨start, number, true, if label.isEmpty then none else some label⟩ ::
        scan regions bodies (number + 1) rest
    | [] => scan [] bodies (number + 1) rest
  | .bodyStart :: rest => scan regions (number :: bodies) (number + 1) rest
  | .bodyEnd :: rest =>
    match bodies with
    | start :: bodies =>
      ⟨start, number, false, none⟩ :: scan regions bodies (number + 1) rest
    | [] => scan regions [] (number + 1) rest
  | .plain :: rest => scan regions bodies (number + 1) rest

/-- Order by first line, then by last. -/
protected def le (a b : FoldRange) : Bool :=
  a.start < b.start || (a.start == b.start && a.stop ≤ b.stop)

end FoldRange

/-- The folds of a document in the order of their first lines. -/
def folds (text : Text) : List FoldRange :=
  (FoldRange.scan [] [] 0 (text.lines.map FoldMark.ofLine)).mergeSort FoldRange.le

end KrlWorkbench
