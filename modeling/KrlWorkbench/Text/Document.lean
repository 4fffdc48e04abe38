import KrlWorkbench.Text.Basic

/-!
# Lines and positions of a text

Editors name a place by a line number and a column in UTF-16 units, both from zero, and an edit puts
a new text in the place of a range.

A line ends at a carriage return followed by a line feed, at a line feed, or at a carriage
return alone.  `lines` cuts a text there, `lineStart` numbers the same lines by the byte
offset at which each begins, and `offset`, `positionAt` go between byte offsets and editor
positions.  All four walk the characters once from the left and agree on what a line is.
-/

namespace KrlWorkbench

/-- A line and a column in it, both from zero, in UTF-16 units. -/
structure Position where
  line : Nat
  character : Nat
  deriving DecidableEq, Repr, Inhabited

/-- Lexicographic order: line first. -/
protected def Position.le (a b : Position) : Bool :=
  a.line < b.line || (a.line == b.line && a.character ≤ b.character)

/-- The text from `start` up to `stop`. -/
structure Range where
  start : Position
  stop : Position
  deriving DecidableEq, Repr, Inhabited

/-- The empty range in front of a position. -/
def Range.point (p : Position) : Range := ⟨p, p⟩

/-- A range and what is to stand there instead. -/
structure TextEdit where
  range : Range
  newText : Text
  deriving DecidableEq, Repr, Inhabited

namespace Text

/-! ## Lines -/

/-- Adds a character in front of the first line. -/
def consLine (c : Char) : List Text → List Text
  | [] => [[c]]
  | line :: rest => (c :: line) :: rest

/-- The lines of a text without their ends; a text that ends in a line end has an empty last line.
-/
def lines : Text → List Text
  | [] => [[]]
  | '\n' :: rest => [] :: lines rest
  | '\r' :: '\n' :: rest => [] :: lines rest
  | '\r' :: rest => [] :: lines rest
  | c :: rest => consLine c (lines rest)

/-- Whether a line ends right after `c`, when `rest` follows it. -/
def endsLine (c : Char) (rest : Text) : Bool :=
  c == '\n' || (c == '\r' && rest.head? != some '\n')

/-- Byte offset at which line `n` starts, if there is such a line. -/
def lineStart : Nat → Text → Option Nat
  | 0, _ => some 0
  | _ + 1, [] => none
  | n + 1, c :: rest =>
    (lineStart (if endsLine c rest then n else n + 1) rest).map (c.utf8Size + ·)

/-! ## From positions to offsets and back -/

/-- Byte offset of column `units` in the line that `text` begins with. A column inside a
character or past the end of the line has none. -/
def columnOffset : Nat → Text → Option Nat
  | 0, _ => some 0
  | _ + 1, [] => none
  | n + 1, c :: rest =>
    if c == '\n' || c == '\r' || n + 1 < units c then none
    else (columnOffset (n + 1 - units c) rest).map (c.utf8Size + ·)

/-- Byte offset of a position, if it is in the text. -/
def offset (text : Text) (p : Position) : Option Nat := do
  let start ← lineStart p.line text
  let column ← columnOffset p.character (dropBytes start text)
  return start + column

/-- Walks `n` bytes on from `here`. An offset inside a character, or past the end of the text,
stops before it. -/
def advance (here : Position) : Nat → Text → Position
  | _, [] => here
  | n, c :: rest =>
    if n < c.utf8Size then here
    else
      let next : Position :=
        if endsLine c rest then ⟨here.line + 1, 0⟩ else ⟨here.line, here.character + units c⟩
      advance next (n - c.utf8Size) rest

/-- The position of byte offset `n`. -/
def positionAt (text : Text) (n : Nat) : Position :=
  advance ⟨0, 0⟩ n text

/-- The range of `length` bytes from byte column `column` of line `line`; a line past the last
one counts as starting at the end of the text. -/
def span (text : Text) (line column length : Nat) : Range :=
  let start := (lineStart line text).getD (byteLength text) + column
  ⟨positionAt text start, positionAt text (start + length)⟩

def wholeRange (text : Text) : Range :=
  ⟨⟨0, 0⟩, positionAt text (byteLength text)⟩

/-- Byte column of a position within its line. -/
def columnOf (text : Text) (p : Position) : Option Nat := do
  let here ← offset text p
  let start ← lineStart p.line text
  return here - start

end Text
end KrlWorkbench
