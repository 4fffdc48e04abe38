import KrlWorkbench.Number

/-!
# JSON values

Integers and numbers with a fraction or exponent stay apart, since some settings accept only the
former.  Objects keep the order of their entries.
-/

namespace KrlWorkbench

/-- A value of JSON; the entries of an object keep their order. -/
inductive Json where
  | null
  | bool (b : Bool)
  | int (n : Int)
  | float (x : Float)
  | str (s : String)
  | arr (items : List Json)
  | obj (entries : List (String × Json))
  deriving Inhabited

namespace Json

/-- The entry of an object under a key; of two entries with one key the later. -/
def get? (key : String) : Json → Option Json
  | .obj entries => entries.reverse.lookup key
  | _ => none

def str? : Json → Option String
  | .str s => some s
  | _ => none

def int? : Json → Option Int
  | .int n => some n
  | _ => none

def float? : Json → Option Float
  | .int n => some (Float.ofInt n)
  | .float x => some x
  | _ => none

def bool? : Json → Option Bool
  | .bool b => some b
  | _ => none

def arr? : Json → Option (List Json)
  | .arr items => some items
  | _ => none

def ofNat (n : Nat) : Json :=
  .int n

/-- A value that may be missing, `null` if it is. -/
def ofOption {α : Type} (f : α → Json) : Option α → Json
  | some a => f a
  | none => .null

def ofList {α : Type} (f : α → Json) (items : List α) : Json :=
  .arr (items.map f)

def ofText (text : List Char) : Json :=
  .str (String.ofList text)

/-- An entry that is left out when its value is missing. -/
def entry? {α : Type} (key : String) (f : α → Json) : Option α → List (String × Json)
  | some a => [(key, f a)]
  | none => []

end Json

/-! ## Writing JSON

`compact` writes a value on one line, `pretty` with two blanks of indentation per level and a
line for each item.  Only quotes, backslashes and control characters are escaped. -/

namespace Json

def hexDigit (n : Nat) : Char :=
  if n < 10 then Char.ofNat (n + 48) else Char.ofNat (n + 87)

def escapeChar (c : Char) : String :=
  if c == '"' then "\\\""
  else if c == '\\' then "\\\\"
  else if c == '\n' then "\\n"
  else if c == '\r' then "\\r"
  else if c == '\t' then "\\t"
  else if c.toNat == 8 then "\\b"
  else if c.toNat == 12 then "\\f"
  else if c.toNat < 32 then
    "\\u00" ++ String.ofList [hexDigit (c.toNat / 16), hexDigit (c.toNat % 16)]
  else String.singleton c

def writeQuoted (out : String) (s : String) : String :=
  s.foldl (fun out c => out ++ escapeChar c) (out ++ "\"") ++ "\""

/-- Writes a value that has no parts onto `out`. -/
def writeAtom (out : String) : Json → String
  | .bool b => out ++ (if b then "true" else "false")
  | .int n => out ++ toString n
  | .float x => out ++ (Number.encode x).getD "null"
  | .str s => writeQuoted out s
  | _ => out ++ "null"

mutual

/-- Writes a value on one line onto `out`. -/
def write (out : String) : Json → String
  | .arr items => writeItems (out ++ "[") items ++ "]"
  | .obj entries => writeEntries (out ++ "\x7b") entries ++ "\x7d"
  | value => writeAtom out value

/-- Writes items with commas between them onto `out`. -/
def writeItems (out : String) : List Json → String
  | [] => out
  | [item] => write out item
  | item :: rest => writeItems (write out item ++ ",") rest

/-- Writes entries with commas between them onto `out`. -/
def writeEntries (out : String) : List (String × Json) → String
  | [] => out
  | [(key, value)] => write (writeQuoted out key ++ ":") value
  | (key, value) :: rest => writeEntries (write (writeQuoted out key ++ ":") value ++ ",") rest

end

/-- Starts a new line at a level of indentation. -/
def newLine (out : String) (level : Nat) : String :=
  out ++ "\n" ++ String.ofList (List.replicate (2 * level) ' ')

mutual

/-- Writes a value over several lines, at a level of indentation, onto `out`. -/
def layOut (level : Nat) (out : String) : Json → String
  | .arr [] => out ++ "[]"
  | .obj [] => out ++ "\x7b\x7d"
  | .arr items => newLine (layOutItems (level + 1) (out ++ "[") items) level ++ "]"
  | .obj entries => newLine (layOutEntries (level + 1) (out ++ "\x7b") entries) level ++ "\x7d"
  | value => writeAtom out value

/-- Writes items on lines of their own onto `out`. -/
def layOutItems (level : Nat) (out : String) : List Json → String
  | [] => out
  | [item] => layOut level (newLine out level) item
  | item :: rest => layOutItems level (layOut level (newLine out level) item ++ ",") rest

/-- Writes entries on lines of their own onto `out`. -/
def layOutEntries (level : Nat) (out : String) : List (String × Json) → String
  | [] => out
  | [(key, value)] => layOut level (writeQuoted (newLine out level) key ++ ": ") value
  | (key, value) :: rest =>
    layOutEntries level
      (layOut level (writeQuoted (newLine out level) key ++ ": ") value ++ ",") rest

end

/-- A value on one line. -/
def compact (value : Json) : String :=
  write "" value

/-- A value over several lines. -/
def pretty (value : Json) : String :=
  layOut 0 "" value

end Json
end KrlWorkbench
