import KrlWorkbench.Code.Line
import KrlWorkbench.Code.Rule

/-!
# The block around a line

Routines and data lists bracket the lines of a document.  The window of a line runs from the
nearest opener above it that is still open there to the closer that ends it; a line may itself be
either end.
-/

namespace KrlWorkbench

/-- A run of lines, both ends included. -/
structure Window where
  start : Nat
  stop : Nat
  deriving DecidableEq, Repr, Inhabited

/-- What a line does to the bracketing of scopes. -/
inductive ScopeMark where
  | opener
  | closer
  | neither
  deriving DecidableEq, Repr, Inhabited

/-- The mark of a line, which its code alone decides. -/
def ScopeMark.ofLine (line : Text) : ScopeMark :=
  let code := Code.codePart line
  if LineRule.scopeOpener.holds code then .opener
  else if LineRule.scopeCloser.holds code then .closer
  else .neither

namespace Window

def contains (w : Window) (line : Nat) : Bool :=
  w.start ≤ line && line ≤ w.stop

/-- Distance upward to the opener that is open below the marks, nearest mark first, when `depth`
closers have been passed. -/
def openerAbove (depth : Nat) : List ScopeMark → Option Nat
  | [] => none
  | .opener :: rest =>
    if depth = 0 then some 0 else (openerAbove (depth - 1) rest).map (· + 1)
  | .closer :: rest => (openerAbove (depth + 1) rest).map (· + 1)
  | .neither :: rest => (openerAbove depth rest).map (· + 1)

/-- Distance downward to the closer that is open above the marks, when `depth` openers have been
passed. -/
def closerBelow (depth : Nat) : List ScopeMark → Option Nat
  | [] => none
  | .closer :: rest =>
    if depth = 0 then some 0 else (closerBelow (depth - 1) rest).map (· + 1)
  | .opener :: rest => (closerBelow (depth + 1) rest).map (· + 1)
  | .neither :: rest => (closerBelow depth rest).map (· + 1)

/-- The distance to the opener that a line belongs to: a closer belongs to its own block. -/
def openerFrom (mark : ScopeMark) (above : List ScopeMark) : Option Nat :=
  match mark with
  | .opener => some 0
  | _ => (openerAbove 0 above).map (· + 1)

/-- The distance to the closer that a line belongs to: an opener belongs to its own block. -/
def closerFrom (mark : ScopeMark) (below : List ScopeMark) : Option Nat :=
  match mark with
  | .closer => some 0
  | _ => (closerBelow 0 below).map (· + 1)

/-- The window of a line among marks; without a closer it runs to the last line. -/
def ofMarks? (marks : List ScopeMark) (line : Nat) : Option Window :=
  match marks.drop line with
  | [] => none
  | mark :: below =>
    (openerFrom mark (marks.take line).reverse).map fun up =>
      ⟨line - up, ((closerFrom mark below).map (line + ·)).getD (marks.length - 1)⟩

/-- The window of a line among the lines of a document. -/
def around? (lines : List Text) (line : Nat) : Option Window :=
  ofMarks? (lines.map ScopeMark.ofLine) line

end Window
end KrlWorkbench
