import KrlWorkbench.Text.Basic

/-!
# Code, comments and strings of a line

A semicolon outside double quotes opens a comment that runs to the end of the line.  A doubled
quote toggles twice, so a quote written inside a string leaves the state as it was.  `mask`
blanks out strings and keeps every byte offset, which lets the rules look for words without
finding them in strings.
-/

namespace KrlWorkbench.Code

open Text

/-- The code in front of the comment, when `inside` tells whether a string is open. -/
def codeFrom : Bool → Text → Text
  | _, [] => []
  | inside, c :: rest =>
    if c == '"' then c :: codeFrom (!inside) rest
    else if c == ';' && !inside then []
    else c :: codeFrom inside rest

/-- The part of a line before its comment. -/
def codePart (line : Text) : Text :=
  codeFrom false line

/-- Byte offset of the semicolon that opens the comment. -/
def commentStart (line : Text) : Option Nat :=
  let code := codePart line
  if code.length < line.length then some (byteLength code) else none

/-- Whether byte `index` falls inside a string: an odd number of quotes stands before it. -/
def inString (line : Text) (index : Nat) : Bool :=
  (takeBytes index line).count '"' % 2 == 1

/-- Replaces quotes, and ASCII characters inside strings, by spaces. -/
def maskFrom : Bool → Text → Text
  | _, [] => []
  | inside, c :: rest =>
    if c == '"' then ' ' :: maskFrom (!inside) rest
    else (if inside && isAscii c then ' ' else c) :: maskFrom inside rest

/-- The text with its strings blanked out, byte for byte. -/
def mask (code : Text) : Text :=
  maskFrom false code

/-- The code of a line with its strings blanked out. -/
def clean (line : Text) : Text :=
  mask (codePart line)

end KrlWorkbench.Code
