import KrlWorkbench.Text.Basic

/-!
# Comma separated lists

A declaration names its variables in a list whose commas count only outside brackets and
strings.  Each item may have an index and an initial value.
-/

namespace KrlWorkbench

/-- An item of a list and its byte offset there. -/
structure ListItem where
  offset : Nat
  text : Text
  deriving DecidableEq, Repr, Inhabited

namespace ListItem

open Text

/-- A bracket inside which commas separate nothing. -/
def isOpening (c : Char) : Bool :=
  c == '[' || c == '\x7b' || c == '('

/-- The end of such a bracket, of whatever shape. -/
def isClosing (c : Char) : Bool :=
  c == ']' || c == '\x7d' || c == ')'

/-- Adds a character in front of the first piece. -/
def consPiece (c : Char) : List Text → List Text
  | [] => [[c]]
  | piece :: rest => (c :: piece) :: rest

/-- The pieces between the commas at depth zero outside strings. A closing bracket too many
leaves the depth at zero. -/
def pieces (depth : Nat) (inside : Bool) : Text → List Text
  | [] => [[]]
  | c :: rest =>
    if c == '"' then consPiece c (pieces depth (!inside) rest)
    else if inside then consPiece c (pieces depth inside rest)
    else if isOpening c then consPiece c (pieces (depth + 1) inside rest)
    else if isClosing c then consPiece c (pieces (depth - 1) inside rest)
    else if c == ',' && depth == 0 then [] :: pieces depth inside rest
    else consPiece c (pieces depth inside rest)

/-- Numbers the pieces by their byte offsets, one byte for each comma between them. -/
def withOffsets (offset : Nat) : List Text → List ListItem
  | [] => []
  | piece :: rest => ⟨offset, piece⟩ :: withOffsets (offset + byteLength piece + 1) rest

/-- The items of a list, empty ones included. -/
def split (list : Text) : List ListItem :=
  withOffsets 0 (pieces 0 false list)

/-- Splits at the first equals sign at depth zero outside strings. -/
def splitInitialFrom (depth : Int) (inside : Bool) : Text → Text × Option Text
  | [] => ([], none)
  | c :: rest =>
    if c == '=' && !inside && depth == 0 then ([], some (trim rest))
    else
      let inside' := if c == '"' then !inside else inside
      let depth' :=
        if inside then depth
        else if isOpening c then depth + 1
        else if isClosing c then depth - 1
        else depth
      let (left, value) := splitInitialFrom depth' inside' rest
      (c :: left, value)

/-- What stands before the equals sign of an item, and the trimmed text after it. -/
def splitInitial (item : Text) : Text × Option Text :=
  splitInitialFrom 0 false item

/-- A name without the array index behind it. -/
def stripIndex (name : Text) : Text :=
  if name.contains '[' then trimEnd (name.takeWhile (· != '[')) else name

/-- The name an item declares. -/
def name (item : ListItem) : Text :=
  stripIndex (trim (splitInitial item.text).1)

/-- The initial value of an item, if it is not empty. -/
def value (item : ListItem) : Option Text :=
  (splitInitial item.text).2.filter (!·.isEmpty)

/-- Byte offset of the item's first character that is no blank. -/
def nameOffset (item : ListItem) : Nat :=
  item.offset + indentBytes item.text

end ListItem
end KrlWorkbench
