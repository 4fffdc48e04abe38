import KrlWorkbench.Json.Printer

/-!
# Reading JSON

A reader by recursive descent over the characters.  Every value takes at least one character, so
the length of the text bounds the depth of the recursion.
-/

namespace KrlWorkbench.Json

open Text

def isSpace (c : Char) : Bool :=
  c == ' ' || c == '\n' || c == '\r' || c == '\t'

def skipSpace (text : Text) : Text :=
  text.dropWhile isSpace

def hex4? (a b c d : Char) : Option Nat := do
  return (((← hexValue? a) * 16 + (← hexValue? b)) * 16 + (← hexValue? c)) * 16 + (← hexValue? d)

def simpleEscape? (c : Char) : Option Char :=
  match c with
  | '"' => some '"'
  | '\\' => some '\\'
  | '/' => some '/'
  | 'b' => some (Char.ofNat 8)
  | 'f' => some (Char.ofNat 12)
  | 'n' => some '\n'
  | 'r' => some '\r'
  | 't' => some '\t'
  | _ => none

/-- The rest of a string after its opening quote, read onto `done`, last character first. A pair
of surrogates is one character; one alone is no character. -/
def stringBody (done : Text) : Text → Option (String × Text)
  | [] => none
  | '"' :: rest => some (String.ofList done.reverse, rest)
  | '\\' :: 'u' :: a :: b :: c :: d :: rest =>
    match hex4? a b c d with
    | none => none
    | some n =>
      if n < 0xD800 || 0xE000 ≤ n then stringBody (Char.ofNat n :: done) rest
      else
        match rest with
        | '\\' :: 'u' :: e :: f :: g :: h :: rest =>
          match hex4? e f g h with
          | some m =>
            if n < 0xDC00 && 0xDC00 ≤ m && m < 0xE000 then
              stringBody (Char.ofNat (0x10000 + (n - 0xD800) * 1024 + (m - 0xDC00)) :: done) rest
            else none
          | none => none
        | _ => none
  | '\\' :: c :: rest =>
    match simpleEscape? c with
    | some e => stringBody (e :: done) rest
    | none => none
  | c :: rest => if c.toNat < 32 then none else stringBody (c :: done) rest

def isNumberChar (c : Char) : Bool :=
  isDigit c || c == '-' || c == '+' || c == '.' || c == 'e' || c == 'E'

/-- The value of a number: an integer if it has neither point nor exponent and fits 64 bits. -/
def number? (text : Text) : Option Json :=
  let (negative, digits) :=
    match text with
    | '-' :: digits => (true, digits)
    | digits => (false, digits)
  if !digits.isEmpty && digits.all isDigit then
    let n := Number.digitsValue 0 digits
    if negative then
      if n == 0 || Nat.pow 2 63 < n then (Number.read? text).map .float else some (.int (-n))
    else if n < Nat.pow 2 64 then some (.int n)
    else (Number.read? text).map .float
  else if digits.head?.any isDigit then (Number.read? text).map .float
  else none

mutual

/-- A value at the front of a text, and what follows it. -/
def value : Nat → Text → Option (Json × Text)
  | 0, _ => none
  | fuel + 1, text =>
    match skipSpace text with
    | '"' :: rest => (stringBody [] rest).map fun (s, rest) => (.str s, rest)
    | '[' :: rest =>
      match skipSpace rest with
      | ']' :: rest => some (.arr [], rest)
      | rest => (items fuel rest).map fun (found, rest) => (.arr found, rest)
    | '\x7b' :: rest =>
      match skipSpace rest with
      | '\x7d' :: rest => some (.obj [], rest)
      | rest => (entries fuel rest).map fun (found, rest) => (.obj found, rest)
    | 't' :: 'r' :: 'u' :: 'e' :: rest => some (.bool true, rest)
    | 'f' :: 'a' :: 'l' :: 's' :: 'e' :: rest => some (.bool false, rest)
    | 'n' :: 'u' :: 'l' :: 'l' :: rest => some (.null, rest)
    | rest =>
      (number? (rest.takeWhile isNumberChar)).map fun n => (n, rest.dropWhile isNumberChar)

/-- The items of an array up to its closing bracket. -/
def items : Nat → Text → Option (List Json × Text)
  | 0, _ => none
  | fuel + 1, text =>
    match value fuel text with
    | none => none
    | some (item, rest) =>
      match skipSpace rest with
      | ',' :: rest => (items fuel rest).map fun (found, rest) => (item :: found, rest)
      | ']' :: rest => some ([item], rest)
      | _ => none

/-- The entries of an object up to its closing brace. -/
def entries : Nat → Text → Option (List (String × Json) × Text)
  | 0, _ => none
  | fuel + 1, text =>
    match skipSpace text with
    | '"' :: rest =>
      match stringBody [] rest with
      | none => none
      | some (key, rest) =>
        match skipSpace rest with
        | ':' :: rest =>
          match value fuel rest with
          | none => none
          | some (item, rest) =>
            match skipSpace rest with
            | ',' :: rest =>
              (entries fuel rest).map fun (found, rest) => ((key, item) :: found, rest)
            | '\x7d' :: rest => some ([(key, item)], rest)
            | _ => none
        | _ => none
    | _ => none

end

/-- The value a text holds, with nothing but blanks around it. -/
def parse? (text : String) : Option Json :=
  let chars := text.toList
  match value (chars.length + 1) chars with
  | some (found, rest) => if (skipSpace rest).isEmpty then some found else none
  | none => none

end KrlWorkbench.Json
