import KrlWorkbench.Code.Line
import KrlWorkbench.Text.Document

/-!
# The identifier at the cursor

`CursorWord.at?` finds the identifier that touches a byte column of a line.  System variables
keep their dollar sign, and a member knows its owner, with an index between the two skipped.
-/

namespace KrlWorkbench

open Text

/-- The word at a place in a line. -/
structure CursorWord where
  text : Text
  /-- Byte columns, end exclusive. -/
  start : Nat
  stop : Nat
  /-- A point stands directly before it. -/
  isMember : Bool
  /-- The identifier before that point. -/
  owner : Option Text
  deriving DecidableEq, Repr, Inhabited

namespace CursorWord

open Text

def isNameOrDollar (c : Char) : Bool :=
  isNameChar c || c == '$'

/-- Walks back, from a closing bracket, to what stands before the matching opening one; `text`
has the nearest character first and `depth` counts the brackets still open. -/
def beforeBracket : Nat → Text → Option Text
  | _, [] => none
  | depth, ']' :: rest => beforeBracket (depth + 1) rest
  | depth, '[' :: rest => if depth ≤ 1 then some rest else beforeBracket (depth - 1) rest
  | depth, _ :: rest => beforeBracket depth rest

/-- What stands before an index, nearest character first; all of it if no index ends there or
its opening bracket is missing. -/
def beforeIndex (text : Text) : Text :=
  match text with
  | ']' :: _ => (beforeBracket 0 text).getD text
  | _ => text

/-- The owner in front of a point, from what stands before the point, nearest character first. -/
def ownerOf (before : Text) : Option Text :=
  match (beforeIndex before).takeWhile isNameOrDollar with
  | [] => none
  | name => some name.reverse

/-- The word between `before`, nearest character first, and what follows it. -/
def between (before name : Text) : Option CursorWord :=
  match name with
  | [] => none
  | c :: _ =>
    if isDigit c then none
    else
      let (before, name) :=
        match before with
        | '$' :: rest => (rest, '$' :: name)
        | _ => (before, name)
      let start := byteLength before
      let (isMember, owner) :=
        match before with
        | '.' :: rest => (true, ownerOf rest)
        | _ => (false, none)
      some ⟨name, start, start + byteLength name, isMember, owner⟩

/-- The identifier that touches byte column `column`.  A column past the end counts as the end;
in front of a dollar sign the system variable behind it is meant. -/
def at? (line : Text) (column : Nat) : Option CursorWord :=
  if isBoundary (min column (byteLength line)) line then
    let before := (takeBytes column line).reverse
    let after := dropBytes column line
    match before.takeWhile isNameChar, after.takeWhile isNameChar with
    | [], [] =>
      match after with
      | '$' :: rest => between ('$' :: before) (rest.takeWhile isNameChar)
      | _ => none
    | left, right => between (before.dropWhile isNameChar) (left.reverse ++ right)
  else none

/-- The identifier characters and dollar signs directly before byte column `column`. -/
def typedBefore (line : Text) (column : Nat) : Text :=
  ((takeBytes column line).reverse.takeWhile isNameOrDollar).reverse

end CursorWord

/-! ## The line and word at a position

What a request about a position starts from: the line, the byte column in it, and the identifier
there. -/

/-- A position in a document, resolved. -/
structure Place where
  lines : List Text
  number : Nat
  line : Text
  column : Nat
  deriving DecidableEq, Repr

namespace Place

/-- The place of a position, if it is in the document. -/
def at? (text : Text) (p : Position) : Option Place := do
  let lines := text.lines
  let line ← lines[p.line]?
  let column ← text.columnOf p
  return ⟨lines, p.line, line, column⟩

/-- Whether the place is in the code of its line or right behind it. -/
def inCode (place : Place) : Bool :=
  place.column ≤ byteLength (Code.codePart place.line)

def inString (place : Place) : Bool :=
  Code.inString place.line place.column

def word? (place : Place) : Option CursorWord :=
  CursorWord.at? place.line place.column

def before (place : Place) : Text :=
  takeBytes place.column place.line

end Place
end KrlWorkbench
