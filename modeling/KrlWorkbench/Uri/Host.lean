import KrlWorkbench.Text.Composition
import KrlWorkbench.Uri.Escape
import KrlWorkbench.Uri.NameMapping

/-!
# Hosts given by number

A host can be given by a number of 32 bits or of 128 bits.  The short form has up to four numbers
between points, decimal, octal or hexadecimal, of which the last fills all the bytes that are left.
The long form has eight groups of 16 bits, where two colons stand for a run of zero groups and the
last two groups can be written in the short form.
-/

namespace KrlWorkbench

open Text

/-- An address of 32 bits. -/
structure ShortAddress where
  value : Nat
  deriving DecidableEq, Repr, Inhabited

/-- An address of eight groups of 16 bits. -/
structure LongAddress where
  groups : List Nat
  deriving DecidableEq, Repr, Inhabited

def decimal (n : Nat) : Text :=
  Nat.toDigits 10 n

def decimalNumber (digits : Text) : Nat :=
  digits.foldl (fun n c => 10 * n + (c.toNat - 48)) 0

namespace ShortAddress

def isOctal (c : Char) : Bool :=
  '0' ≤ c && c ≤ '7'

/-- A number of an address: hexadecimal behind `0x`, octal behind `0`, decimal otherwise. -/
def number? (part : Text) : Option Nat :=
  match part with
  | [] => none
  | '0' :: 'x' :: digits =>
    if digits.all fun c => (hexValue? c).isSome then some (hexNumber digits) else none
  | '0' :: d :: digits =>
    if (d :: digits).all isOctal then
      some ((d :: digits).foldl (fun n c => 8 * n + (c.toNat - 48)) 0)
    else none
  | digits => if digits.all isDigit then some (decimalNumber digits) else none

/-- The parts between points; a point at the end does not count. -/
def partsOf (name : Text) : List Text :=
  let parts := splitOn (· == '.') name
  if parts.getLast? == some [] then parts.dropLast else parts

/-- Whether a host name is meant as an address: its last part is a number. -/
def isMeant (name : Text) : Bool :=
  (partsOf name).getLast?.any fun part =>
    (!part.isEmpty && part.all isDigit) || (number? part).isSome

/-- The address that numbers make; every number but the last is a byte. -/
def ofNumbers? (numbers : List Nat) : Option ShortAddress :=
  match numbers.reverse with
  | [] => none
  | last :: before =>
    let bytes := before.reverse
    let room := Nat.pow 256 (4 - bytes.length)
    if bytes.length ≤ 3 && bytes.all (· < 256) && last < room then
      some ⟨bytes.foldl (fun n b => 256 * n + b) 0 * room + last⟩
    else none

def ofText? (name : Text) : Option ShortAddress := do
  ofNumbers? (← (partsOf name).mapM number?)

def toText (a : ShortAddress) : Text :=
  (['.'] : Text).intercalate
    ([a.value / 16777216 % 256, a.value / 65536 % 256, a.value / 256 % 256, a.value % 256].map
      decimal)

end ShortAddress

namespace LongAddress

/-- A group of one to four hexadecimal digits. -/
def group? (part : Text) : Option Nat :=
  if 1 ≤ part.length && part.length ≤ 4 && part.all fun c => (hexValue? c).isSome then
    some (hexNumber part)
  else none

/-- A byte of the short form inside the long one, without leading zeros. -/
def byte? (part : Text) : Option Nat :=
  let n := decimalNumber part
  if part.all isDigit && decimal n == part && n < 256 then some n else none

/-- The groups between colons; four bytes with points between them may take the place of the last
two. -/
def groups? : List Text → Option (List Nat)
  | [] => some []
  | [part] =>
    if part.contains '.' then
      match (splitOn (· == '.') part).mapM byte? with
      | some [a, b, c, d] => some [256 * a + b, 256 * c + d]
      | _ => none
    else (group? part).map ([·])
  | part :: rest => do return (← group? part) :: (← groups? rest)

/-- The groups a text spells, none if it is empty. -/
def groupsOf? (text : Text) : Option (List Nat) :=
  if text.isEmpty then some [] else groups? (splitOn (· == ':') text)

/-- What stands before and after the first two colons in a row. -/
def cutAtGap? : Text → Option (Text × Text)
  | [] => none
  | ':' :: ':' :: rest => some ([], rest)
  | c :: rest => (cutAtGap? rest).map fun cut => (c :: cut.1, cut.2)

def ofText? (text : Text) : Option LongAddress :=
  match cutAtGap? text with
  | some (before, after) => do
    let front ← if before.contains '.' then none else groupsOf? before
    let back ← groupsOf? after
    if front.length + back.length < 8 then
      some ⟨front ++ List.replicate (8 - front.length - back.length) 0 ++ back⟩
    else none
  | none => do
    let groups ← groupsOf? text
    if groups.length == 8 then some ⟨groups⟩ else none

def zeros (groups : List Nat) : Nat :=
  (groups.takeWhile (· == 0)).length

/-- The first of the longest runs of zero groups: where it starts and its length. -/
def longestGap (groups : List Nat) : Nat × Nat :=
  (List.range groups.length).foldl (fun best start =>
    let length := zeros (groups.drop start)
    if best.2 < length then (start, length) else best) (0, 0)

/-- Groups with colons between them. -/
def written (groups : List Nat) : Text :=
  ([':'] : Text).intercalate (groups.map (Nat.toDigits 16))

/-- The groups with colons between them, two colons for the longest run of zeros if it has at
least two. -/
def toText (a : LongAddress) : Text :=
  let gap := longestGap a.groups
  if gap.2 < 2 then written a.groups
  else written (a.groups.take gap.1) ++ [':', ':'] ++ written (a.groups.drop (gap.1 + gap.2))

end LongAddress

/-! ## Letters outside ASCII in host names

A label of a host name is sent in ASCII: its ASCII characters come first, then, as numbers in a
system with varying digits, the other characters in increasing order, each with the distance to
the place where it is put in.

Three loops end for three reasons: `encodeNumber` and `scaled` divide, `encodeFrom` goes through
the distinct characters. -/

namespace Punycode

/-- A digit: the letters, then the figures. -/
def digit (n : Nat) : Char :=
  if n < 26 then Char.ofNat (n + 97) else Char.ofNat (n + 22)

/-- The least value of a digit at a place that another digit may follow. -/
def threshold (bias place : Nat) : Nat :=
  if place ≤ bias then 1 else if bias + 26 ≤ place then 26 else place - bias

theorem one_le_threshold (bias place : Nat) : 1 ≤ threshold bias place := by
  unfold threshold
  split
  · omega
  · split <;> omega

/-- Writes a number from a place on, lowest digit first. -/
def encodeNumber (bias place n : Nat) : Text :=
  let t := threshold bias place
  if n < t then [digit n]
  else digit (t + (n - t) % (36 - t)) :: encodeNumber bias (place + 36) ((n - t) / (36 - t))
termination_by n
decreasing_by
  have := one_le_threshold bias place
  calc (n - threshold bias place) / (36 - threshold bias place)
      ≤ n - threshold bias place := Nat.div_le_self _ _
    _ < n := by omega

/-- Divides a distance until it is small; the second number counts the divisions in steps of a
place. -/
def scaled (distance places : Nat) : Nat × Nat :=
  if 455 < distance then scaled (distance / 35) (places + 36) else (distance, places)
termination_by distance
decreasing_by exact Nat.div_lt_self (by omega) (by omega)

/-- The bias after a distance has been written, when `count` characters are in place. -/
def adapt (distance count : Nat) (isFirst : Bool) : Nat :=
  let distance := if isFirst then distance / 700 else distance / 2
  let (rest, places) := scaled (distance + distance / count) 0
  places + 36 * rest / (rest + 38)

structure Writing where
  written : Text
  distance : Nat
  bias : Nat
  /-- Characters in place. -/
  count : Nat
  /-- No distance has been written yet. -/
  isFirst : Bool

/-- Passes one character of the label while the characters `code` are put in. -/
def Writing.pass (code : Nat) (w : Writing) (c : Char) : Writing :=
  if c.toNat < code then { w with distance := w.distance + 1 }
  else if c.toNat == code then
    { written := w.written ++ encodeNumber w.bias 36 w.distance
      distance := 0
      bias := adapt w.distance (w.count + 1) w.isFirst
      count := w.count + 1
      isFirst := false }
  else w

/-- Puts in the characters of the list, which is increasing and starts at `next` or above. -/
def encodeFrom (label : Text) : List Nat → Nat → Writing → Writing
  | [], _, w => w
  | code :: rest, next, w =>
    let w := { w with distance := w.distance + (code - next) * (w.count + 1) }
    let w := label.foldl (Writing.pass code) w
    encodeFrom label rest (code + 1) { w with distance := w.distance + 1 }

/-- The ASCII form of a label. -/
def encode (label : Text) : Text :=
  let basic := label.filter Text.isAscii
  let codes := ((label.filter fun c => !Text.isAscii c).map Char.toNat).eraseDups.mergeSort
  let start : Writing := ⟨if basic.isEmpty then [] else basic ++ ['-'], 0, 72, basic.length, true⟩
  (encodeFrom label codes 128 start).written

end Punycode

/-! ## Hosts

A host is a name or an address.  Names of schemes that belong to the network are brought to the
form in which they are looked up: small letters, ASCII only, and numbers read as addresses.  Other
schemes keep a name as it is written. -/

inductive Host where
  | name (text : Text)
  | short (address : ShortAddress)
  | long (address : LongAddress)
  deriving DecidableEq, Repr, Inhabited

namespace HostName

def asciiLabel (label : Text) : Text :=
  if label.all isAscii then label else "xn--".toList ++ Punycode.encode label

/-- The form of a name in which it is looked up. -/
def normal (name : Text) : Text :=
  (['.'] : Text).intercalate
    ((splitOn (· == '.') (composed (name.flatMap mapped))).map asciiLabel)

/-- Characters no name holds, however it is used. -/
def isForbidden (c : Char) : Bool :=
  c.toNat == 0 || " #/:<>?@[\\]^|\t\n\r".toList.contains c

/-- Characters no name that is looked up holds. -/
def isUnusable (c : Char) : Bool :=
  isForbidden c || c.toNat < 32 || c == '%' || c.toNat == 127

end HostName

namespace Host

def toText : Host → Text
  | .name text => text
  | .short address => address.toText
  | .long address => '[' :: address.toText ++ [']']

def bracketed? (text : Text) : Option Host :=
  if text.getLast? == some ']' then (LongAddress.ofText? text.dropLast).map .long else none

/-- A host whose name is kept as it is written. -/
def asWritten? (text : Text) : Option Host :=
  match text with
  | '[' :: rest => bracketed? rest
  | _ =>
    if text.any HostName.isForbidden then none
    else some (.name (Escape.encode Escape.always text))

/-- A host whose name is looked up. -/
def network? (text : Text) : Option Host :=
  match text with
  | '[' :: rest => bracketed? rest
  | _ => do
    let decoded ← String.fromUTF8? ⟨(Escape.decode text).toArray⟩
    let name := HostName.normal decoded.toList
    if name.isEmpty || name.any HostName.isUnusable then none
    else if ShortAddress.isMeant name then (ShortAddress.ofText? name).map .short
    else some (.name name)

end Host
end KrlWorkbench
