import KrlWorkbench.Text.Basic

/-!
# Tables of code points

A large table is one string: a line is a row, and a row is a list of words with blanks between them.
A code point is written in hexadecimal digits.  Ranges of code points are given by the lengths of
the stretches between them and of their own.  These are many small numbers, so a run of them is
packed into one.  The ranges are disjoint and in increasing order, and asking whether a code point
is in one is a binary search.
-/

namespace KrlWorkbench.Text

/-- The number that hexadecimal digits spell; other characters count as zero. -/
def hexNumber (digits : Text) : Nat :=
  digits.foldl (fun n c => 16 * n + (hexValue? c).getD 0) 0

def tableRows (table : String) : List (List Text) :=
  (splitOn (· == '\n') table.toList).map blankSeparated

def codeTable (table : String) : List (List Nat) :=
  (tableRows table).map (·.map hexNumber)

/-- The numbers that are packed into `n`, at most `fuel` digits of it.  Each hexadecimal digit, from
the last one on, holds three bits, lowest first, and one that is less than 8 ends a number.  Of the
first number `value` has been read, and its next digit counts `scale`. -/
def unpackFrom (value scale : Nat) : (fuel : Nat) → (n : Nat) → List Nat
  | 0, _ => []
  | fuel + 1, n =>
    let digit := n % 16
    let value := value + scale * (digit % 8)
    if n = 0 then []
    else if digit < 8 then value :: unpackFrom 0 1 fuel (n / 16)
    else unpackFrom value (8 * scale) fuel (n / 16)

/-- The numbers that are packed into numbers of at most 100 digits. -/
def unpacked (packed : List Nat) : List Nat :=
  packed.flatMap (unpackFrom 0 1 100)

/-- The second stretch of each pair, as ranges of code points, where the first begins at `start`. -/
def stretchRanges (start : Nat) : List Nat → List (Nat × Nat)
  | gap :: count :: rest =>
    (start + gap, start + gap + count - 1) :: stretchRanges (start + gap + count) rest
  | _ => []

/-- Ranges that are given by how many code points are in none, how many behind them are in one, and
so on in turn. -/
def rangeTable (stretches : List Nat) : Array (Nat × Nat) :=
  (stretchRanges 0 (unpacked stretches)).toArray

/-- Whether `n` lies in one of the ranges whose index is at least `lo` and below `hi`. -/
def inRangesBetween (ranges : Array (Nat × Nat)) (n lo hi : Nat) : Bool :=
  if lo < hi then
    let mid := (lo + hi) / 2
    let range := ranges.getD mid (1, 0)
    if n < range.1 then inRangesBetween ranges n lo mid
    else if range.2 < n then inRangesBetween ranges n (mid + 1) hi
    else true
  else false
termination_by hi - lo

/-- Whether a code point lies in one of some sorted ranges. -/
def inRanges (ranges : Array (Nat × Nat)) (n : Nat) : Bool :=
  inRangesBetween ranges n 0 ranges.size

end KrlWorkbench.Text
