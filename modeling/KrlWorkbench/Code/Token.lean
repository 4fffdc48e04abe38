import KrlWorkbench.Text.Basic

/-!
# Identifiers of a line

`tokens` lists the identifiers of a piece of code from left to right.  Numbers are skipped
together with any letters and points they run into, and so is everything between two
apostrophes, where number literals of other bases stand.
-/

namespace KrlWorkbench

/-- An identifier in a line. -/
structure Token where
  text : Text
  /-- Byte columns, end exclusive. -/
  start : Nat
  stop : Nat
  /-- The sign directly before it if that is one of `$`, `#` and the point, else the nearest
  character before it that is no blank. -/
  lead : Option Char
  deriving DecidableEq, Repr, Inhabited

namespace Token

open Text

/-- Whether a character marks a system variable, an enumeration value or a member. -/
def isSigil (c : Char) : Bool :=
  c == '$' || c == '#' || c == '.'

/-- Whether the identifier belongs to a system variable, an enumeration or an owner. -/
def isQualified (token : Token) : Bool :=
  token.lead.any isSigil

/-- The character that leads an identifier, from what stands before it, nearest first. -/
def leadOf (before : Text) : Option Char :=
  match before.head? with
  | some c => if isSigil c then some c else before.find? (!isBlank ·)
  | none => none

/-- A character of a number, once a digit has begun it. -/
def isNumberPart (c : Char) : Bool :=
  isNameChar c || c == '.'

/-- The identifiers of `rest`, where `before` precedes it, nearest character first. -/
def scan (before : Text) (rest : Text) : List Token :=
  match rest with
  | [] => []
  | c :: rest =>
    if isNameStart c then
      let name := c :: rest.takeWhile isNameChar
      let start := byteLength before
      ⟨name, start, start + byteLength name, leadOf before⟩ ::
        scan (name.reverse ++ before) (rest.dropWhile isNameChar)
    else if isDigit c then
      scan ((rest.takeWhile isNumberPart).reverse ++ c :: before) (rest.dropWhile isNumberPart)
    else if c == '\'' then
      let inner := rest.takeWhile (· != '\'')
      match _hrest : rest.dropWhile (· != '\'') with
      | [] => []
      | quote :: rest' => scan (quote :: (inner.reverse ++ c :: before)) rest'
    else scan (c :: before) rest
termination_by rest.length
decreasing_by
  · exact Nat.lt_succ_of_le (List.dropWhile_suffix _).length_le
  · exact Nat.lt_succ_of_le (List.dropWhile_suffix _).length_le
  · have := (List.dropWhile_suffix (· != '\'') (l := rest)).length_le
    simp only [_hrest, List.length_cons] at this ⊢
    omega
  · simp

/-- The identifiers of a line of code, from left to right. -/
def tokens (code : Text) : List Token :=
  scan [] code

end Token
end KrlWorkbench
