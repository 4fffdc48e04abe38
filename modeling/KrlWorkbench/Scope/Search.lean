import KrlWorkbench.File.Tree
import KrlWorkbench.Scope.Window
import KrlWorkbench.Text.Document

/-!
# Searching sources for a declaration

A declaration is found by the shape of its line: the header of a routine, a `DECL` or `SIGNAL`
line that mentions the name, or the definition of a structure.  Files are searched in the order of
their paths and lines from the top; the first hit counts.
-/

namespace KrlWorkbench

open Text

/-- What kind of declaration is looked for. -/
inductive SearchKind where
  | routine
  | var
  | record
  deriving DecidableEq, Repr, Inhabited

/-- A declaration that a search found. -/
structure Declaration where
  path : Path
  line : Nat
  range : Range
  /-- The declaring line without the blanks around it. -/
  detail : Text
  deriving Repr, Inhabited

namespace Declaration

open Pattern LineRule

/-- The shape of the declaring line. Group 1 is the name, except for variables. -/
def linePattern (name : Text) : SearchKind → Pattern
  | .routine =>
    indent ++ skip "GLOBAL" ++ anyKeyword ["DEF", "DEFFCT"] ++ gap ++
      option (atLeastOne (fun c => isNamePart c || c == '[' || c == ']') ++ gap) ++
      .group 1 (word name) ++ parameters 2
  | .var =>
    indent ++ skip "GLOBAL" ++ skip "CONST" ++ anyKeyword ["DECL", "SIGNAL"] ++ .wordBoundary
  | .record =>
    indent ++ skip "GLOBAL" ++ skip "DECL" ++ skip "GLOBAL" ++ keyword "STRUC" ++ gap ++
      .group 1 (word name) ++ .wordBoundary

/-- The last character of a text before byte offset `n`. -/
def charBefore (text : Text) (n : Nat) : Option Char :=
  (takeBytes n text).getLast?

/-- The name where a line declares it. -/
def nameIn? (name : Text) (kind : SearchKind) (line : Text) : Option Capture :=
  let code := Code.clean line
  match kind with
  | .var =>
    if (linePattern name kind).isIn code then
      (((wholeWord name).occurrences code).find? fun found =>
        !(charBefore code found.whole.start).any fun c => c == '$' || c == '#' || c == '.').map
          (·.whole)
    else none
  | _ => ((linePattern name kind).find? code).bind (·.group? 1)

/-- The range of a piece of line `number`. -/
def lineRange (line : Text) (number : Nat) (piece : Capture) : Range :=
  ⟨⟨number, unitLength (takeBytes piece.start line)⟩,
    ⟨number, unitLength (takeBytes piece.stop line)⟩⟩

/-- The first declaration in a text, in the lines of a window if one is given. -/
def inText? (name : Text) (kind : SearchKind) (path : Path) (text : Text)
    (window : Option Window) : Option Declaration :=
  text.lines.zipIdx.findSome? fun (line, number) =>
    if window.all (·.contains number) then
      (nameIn? name kind line).map fun piece =>
        ⟨path, number, lineRange line number piece, trim line⟩
    else none

/-- The first declaration in a file, as `read` gives its text, in the lines of a window if one is
given. -/
def inFile? (name : Text) (kind : SearchKind) (read : Path → Option Text) (window : Option Window)
    (path : Path) : Option Declaration :=
  (read path).bind fun text => inText? name kind path text window

/-- The first declaration in some files. -/
def inFiles? (name : Text) (kind : SearchKind) (read : Path → Option Text) (paths : List Path) :
    Option Declaration :=
  paths.findSome? (inFile? name kind read none)

end Declaration
end KrlWorkbench
