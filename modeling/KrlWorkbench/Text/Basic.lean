/-!
# Texts and their measures

A text is a list of characters.  Editors address it in two other units: bytes of its UTF-8
form and UTF-16 code units.  Both are sums over the characters, so an offset in either unit
is the measure of what stands before it, and cutting a text at an offset needs no positions
other than those sums.

Main definitions: `byteLength`, `unitLength`, `dropBytes`, `takeBytes`, `upper` and `sameName`,
the comparison that ignores the case of ASCII letters only.
-/

namespace KrlWorkbench

/-- Source text, a line of it, or a name in it. -/
abbrev Text := List Char

namespace Text

/-! ## Measures -/

/-- Bytes of the UTF-8 form. -/
def byteLength : Text → Nat
  | [] => 0
  | c :: rest => c.utf8Size + byteLength rest

/-- UTF-16 code units of one character: two outside the basic plane. -/
def units (c : Char) : Nat :=
  if c.toNat < 0x10000 then 1 else 2

/-- UTF-16 code units of a text. -/
def unitLength : Text → Nat
  | [] => 0
  | c :: rest => units c + unitLength rest

@[simp] theorem byteLength_nil : byteLength [] = 0 := rfl

@[simp] theorem byteLength_cons (c : Char) (rest : Text) :
    byteLength (c :: rest) = c.utf8Size + byteLength rest := rfl

@[simp] theorem byteLength_append (a b : Text) :
    byteLength (a ++ b) = byteLength a + byteLength b := by
  induction a with
  | nil => simp
  | cons c rest ih => simp [ih, Nat.add_assoc]

@[simp] theorem unitLength_nil : unitLength [] = 0 := rfl

@[simp] theorem unitLength_cons (c : Char) (rest : Text) :
    unitLength (c :: rest) = units c + unitLength rest := rfl

@[simp] theorem unitLength_append (a b : Text) :
    unitLength (a ++ b) = unitLength a + unitLength b := by
  induction a with
  | nil => simp
  | cons c rest ih => simp [ih, Nat.add_assoc]

/-! ## Cuts at byte offsets -/

/-- What follows byte offset `n`.  An offset inside a character counts as the offset before it. -/
def dropBytes : Nat → Text → Text
  | _, [] => []
  | n, c :: rest => if c.utf8Size ≤ n then dropBytes (n - c.utf8Size) rest else c :: rest

/-- What precedes byte offset `n`.  An offset inside a character counts as the offset before it. -/
def takeBytes : Nat → Text → Text
  | _, [] => []
  | n, c :: rest => if c.utf8Size ≤ n then c :: takeBytes (n - c.utf8Size) rest else []

/-- The bytes from `start` up to `stop`. -/
def slice (start stop : Nat) (text : Text) : Text :=
  takeBytes (stop - start) (dropBytes start text)

theorem takeBytes_append_dropBytes (n : Nat) (text : Text) :
    takeBytes n text ++ dropBytes n text = text := by
  induction text generalizing n with
  | nil => rfl
  | cons c rest ih =>
    by_cases h : c.utf8Size ≤ n
    · simp [takeBytes, dropBytes, h, ih]
    · simp [takeBytes, dropBytes, h]

/-- Whether byte offset `n` falls between two characters of the text or at one of its ends. -/
def isBoundary : Nat → Text → Bool
  | 0, _ => true
  | _ + 1, [] => false
  | n + 1, c :: rest => if c.utf8Size ≤ n + 1 then isBoundary (n + 1 - c.utf8Size) rest else false

/-! ## ASCII letters -/

/-- Upper case of an ASCII letter, any other character as it is. -/
def upperChar (c : Char) : Char :=
  if 'a' ≤ c ∧ c ≤ 'z' then Char.ofNat (c.toNat - 32) else c

/-- The text with its ASCII letters in upper case. -/
def upper (text : Text) : Text :=
  text.map upperChar

/-- Lower case of an ASCII letter, any other character as it is. -/
def lowerAscii (c : Char) : Char :=
  if 'A' ≤ c ∧ c ≤ 'Z' then Char.ofNat (c.toNat + 32) else c

/-- The text with its ASCII letters in lower case. -/
def lower (text : Text) : Text :=
  text.map lowerAscii

/-- Equality up to the case of ASCII letters. -/
def sameName (a b : Text) : Bool :=
  upper a == upper b

/-- An ASCII letter. -/
def isLetter (c : Char) : Bool :=
  ('a' ≤ c && c ≤ 'z') || ('A' ≤ c && c ≤ 'Z')

/-- An ASCII digit. -/
def isDigit (c : Char) : Bool :=
  '0' ≤ c && c ≤ '9'

theorem toNat_ofNat {n : Nat} (h : n.isValidChar) : (Char.ofNat n).toNat = n := by
  rw [Char.ofNat, dif_pos h]
  rfl

def hexValue? (c : Char) : Option Nat :=
  if '0' ≤ c && c ≤ '9' then some (c.toNat - 48)
  else if 'a' ≤ c && c ≤ 'f' then some (c.toNat - 87)
  else if 'A' ≤ c && c ≤ 'F' then some (c.toNat - 55)
  else none

/-- A character of an identifier. -/
def isNameChar (c : Char) : Bool :=
  isLetter c || isDigit c || c == '_'

/-- A character an identifier may start with. -/
def isNameStart (c : Char) : Bool :=
  isLetter c || c == '_'

def isAscii (c : Char) : Bool :=
  c.toNat < 128

/-- An ASCII letter or underscore followed by ASCII letters, digits and underscores. -/
def isIdentifier : Text → Bool
  | [] => false
  | c :: rest => isNameStart c && rest.all isNameChar

def startsWith (text lead : Text) : Bool :=
  lead.isPrefixOf text

/-- Lists in the order of the first place where they differ, a list before its continuations. -/
def leLists {α : Type} [BEq α] (le : α → α → Bool) : List α → List α → Bool
  | [], _ => true
  | _ :: _, [] => false
  | a :: as, b :: bs => if a == b then leLists le as bs else le a b

end Text

/-! ## Blanks

The White_Space characters, and trimming and splitting at them. -/

namespace Text

/-- A character with the White_Space property. -/
def isBlank (c : Char) : Bool :=
  let n := c.toNat
  (9 ≤ n && n ≤ 13) || n == 32 || n == 0x85 || n == 0xA0 || n == 0x1680
    || (0x2000 ≤ n && n ≤ 0x200A) || n == 0x2028 || n == 0x2029 || n == 0x202F
    || n == 0x205F || n == 0x3000

def trimStart (text : Text) : Text :=
  text.dropWhile isBlank

/-- Drops the characters at the end that satisfy `p`. -/
def dropEndWhile (p : Char → Bool) : Text → Text
  | [] => []
  | c :: rest =>
    match dropEndWhile p rest with
    | [] => if p c then [] else [c]
    | kept => c :: kept

def trimEnd (text : Text) : Text :=
  dropEndWhile isBlank text

def trim (text : Text) : Text :=
  trimEnd (trimStart text)

def allBlank (text : Text) : Bool :=
  text.all isBlank

/-- How many bytes the blanks in front take. -/
def indentBytes (text : Text) : Nat :=
  byteLength (text.takeWhile isBlank)

/-- The pieces between the characters, or bytes, that satisfy `p`, empty pieces included. -/
def splitOn {α : Type} (p : α → Bool) : List α → List (List α)
  | [] => [[]]
  | c :: rest =>
    match splitOn p rest with
    | [] => [[c]]
    | piece :: pieces => if p c then [] :: piece :: pieces else (c :: piece) :: pieces

/-- The non-empty pieces between blanks. -/
def blankSeparated (text : Text) : List Text :=
  (splitOn isBlank text).filter fun piece => !piece.isEmpty

end Text
end KrlWorkbench
