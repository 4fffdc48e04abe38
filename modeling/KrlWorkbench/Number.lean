import KrlWorkbench.Text.Basic

/-!
# Numbers

Floating point numbers taken apart, written with the fewest digits that read back, and read from
text.
-/

namespace KrlWorkbench.Number

open Text

/-! ## Binary floating point numbers

A finite double is a sign, a whole number and a power of two.  `Binary.ofFloat` takes a double
apart; the exact whole number nearest to zero and the saturating conversion to a 64 bit integer
follow from the parts. -/

/-- The parts of a double. -/
inductive Binary where
  | nan
  | infinite (negative : Bool)
  /-- The value `mantissa * 2 ^ exponent`, negated if `negative`. -/
  | finite (negative : Bool) (mantissa : Nat) (exponent : Int)
  deriving DecidableEq, Repr

namespace Binary

/-- The parts of a double: 52 bits of fraction, 11 of exponent, one of sign. -/
def ofFloat (x : Float) : Binary :=
  let bits := x.toBits.toNat
  let negative := Nat.pow 2 63 ≤ bits
  let exponent : Nat := bits / Nat.pow 2 52 % Nat.pow 2 11
  let fraction := bits % Nat.pow 2 52
  if exponent == 2047 then if fraction == 0 then .infinite negative else .nan
  else if exponent == 0 then .finite negative fraction (-1074)
  else .finite negative (Nat.pow 2 52 + fraction) ((exponent : Int) - 1075)

/-- The magnitude without its fraction. -/
def whole (mantissa : Nat) (exponent : Int) : Nat :=
  if 0 ≤ exponent then mantissa * Nat.pow 2 exponent.toNat
  else mantissa / Nat.pow 2 (-exponent).toNat

/-- The value without its fraction as a 64 bit integer: the nearest end of the integers for
values beyond them, zero for no number. -/
def toInt64 (b : Binary) : Int :=
  let bound : Int := Nat.pow 2 63
  match b with
  | .nan => 0
  | .infinite negative => if negative then -bound else bound - 1
  | .finite negative mantissa exponent =>
    if negative then max (-bound) (-(whole mantissa exponent : Int))
    else min (bound - 1) (whole mantissa exponent : Int)

end Binary

/-! ## The fewest decimal digits that read back

The reals that round to a double form an interval around it.  For one digit, two digits and so
on, the two decimals of that length next to the double are tried; the first length with a
decimal inside the interval wins, of two decimals the nearer, and of two equally near ones the
larger.  Arithmetic is exact, over a common denominator. -/

/-- The value `digits * 10 ^ exponent`. -/
structure Decimal where
  digits : Nat
  exponent : Int
  deriving DecidableEq, Repr

/-- A positive rational with the interval of reals that round to it, over one denominator. -/
structure Rounding where
  low : Nat
  value : Nat
  high : Nat
  denominator : Nat
  /-- Whether the ends round to the value as well. -/
  closed : Bool

namespace Rounding

/-- The interval of the double `mantissa * 2 ^ exponent`. Below a power of two the doubles are
twice as dense, save among the smallest. -/
def ofBinary (mantissa : Nat) (exponent : Int) : Rounding :=
  let below := if mantissa == Nat.pow 2 52 && exponent != -1074 then 1 else 2
  let power := exponent - 2
  let scale := Nat.pow 2 power.toNat
  ⟨(4 * mantissa - below) * scale, 4 * mantissa * scale, (4 * mantissa + 2) * scale,
    Nat.pow 2 (-power).toNat, mantissa % 2 == 0⟩

/-- Whether `n / d` rounds to the value. -/
def holds (r : Rounding) (n d : Nat) : Bool :=
  if r.closed then r.low * d ≤ n * r.denominator && n * r.denominator ≤ r.high * d
  else r.low * d < n * r.denominator && n * r.denominator < r.high * d

/-- Counts the zeros a value below one has behind the point, at most `fuel`. -/
def zerosBehindPoint (value denominator : Nat) : Nat → Nat
  | 0 => 0
  | fuel + 1 =>
    if denominator ≤ value * 10 then 0 else zerosBehindPoint (value * 10) denominator fuel + 1

/-- The number of digits in front of the point, negative for zeros behind it. -/
def magnitude (r : Rounding) : Int :=
  if r.denominator ≤ r.value then ((Nat.toDigits 10 (r.value / r.denominator)).length : Int)
  else -(zerosBehindPoint r.value r.denominator 400 : Int)

/-- The decimal with last place `10 ^ place` next to the value that rounds to it, if one does. -/
def onGrid (r : Rounding) (place : Int) : Option Decimal :=
  let up := Nat.pow 10 place.toNat
  let down := Nat.pow 10 (-place).toNat
  let below := r.value * down / (r.denominator * up)
  let above := below + 1
  let rest := r.value * down - below * (r.denominator * up)
  match r.holds (below * up) down, r.holds (above * up) down with
  | true, true =>
    some ⟨if 2 * rest < r.denominator * up then below else above, place⟩
  | true, false => some ⟨below, place⟩
  | false, true => some ⟨above, place⟩
  | false, false => none

/-- The first grid with a decimal, from `count` digits on, over at most `fuel` grids. -/
def firstGrid (r : Rounding) (count : Nat) : Nat → Decimal
  | 0 => ⟨0, 0⟩
  | fuel + 1 =>
    match r.onGrid (r.magnitude - count) with
    | some d => d
    | none => firstGrid r (count + 1) fuel

end Rounding

/-- Moves zeros at the end of the digits into the exponent, at most `fuel` of them. -/
def Decimal.normal (d : Decimal) : Nat → Decimal
  | 0 => d
  | fuel + 1 =>
    if d.digits != 0 && d.digits % 10 == 0 then Decimal.normal ⟨d.digits / 10, d.exponent + 1⟩ fuel
    else d

/-- The shortest decimal that reads back as `mantissa * 2 ^ exponent`. -/
def shortest (mantissa : Nat) (exponent : Int) : Decimal :=
  if mantissa == 0 then ⟨0, 0⟩
  else ((Rounding.ofBinary mantissa exponent).firstGrid 1 17).normal 20

/-! ## Numbers as text

In messages a number is written with the fewest digits that read back, never with an exponent,
and without a point when it is whole.  In data it keeps a point or an exponent, which tells it
from an integer. -/

/-- The digits with zeros and a point where the exponent puts them. -/
def Decimal.positional (d : Decimal) : String :=
  let digits := Nat.toDigits 10 d.digits
  if 0 ≤ d.exponent then
    String.ofList (if d.digits == 0 then ['0'] else digits ++ List.replicate d.exponent.toNat '0')
  else
    let places := (-d.exponent).toNat
    if places < digits.length then
      String.ofList
        (digits.take (digits.length - places) ++ '.' :: digits.drop (digits.length - places))
    else String.ofList ('0' :: '.' :: List.replicate (places - digits.length) '0' ++ digits)

def signed (negative : Bool) (text : String) : String :=
  if negative then "-" ++ text else text

/-- The shortest decimal that reads back as the number. -/
def display (x : Float) : String :=
  match Binary.ofFloat x with
  | .nan => "NaN"
  | .infinite negative => signed negative "inf"
  | .finite negative mantissa exponent => signed negative (shortest mantissa exponent).positional

/-- A number in data: a whole number below `10 ^ 16` ends in `.0`, larger or fractional ones have
a point or an exponent. No text for what is not finite. -/
def encode (x : Float) : Option String :=
  match Binary.ofFloat x with
  | .nan => none
  | .infinite _ => none
  | .finite negative mantissa exponent =>
    let d := shortest mantissa exponent
    let size : Int := (Nat.toDigits 10 d.digits).length + d.exponent
    let text :=
      if 0 ≤ d.exponent && size ≤ 16 then d.positional ++ ".0"
      else if d.exponent < 0 && -5 < size && size ≤ 16 then d.positional
      else s!"{d.digits}e{d.exponent}"
    some (signed negative text)

/-! ## Reading numbers

A number is a sign, digits with at most one point and at least one digit, and an exponent, or
one of the words for infinity and for no number, in either case. -/

/-- The value of decimal digits read after `start`. -/
def digitsValue (start : Nat) (digits : Text) : Nat :=
  digits.foldl (fun n c => n * 10 + (c.toNat - '0'.toNat)) start

/-- The double nearest to `mantissa * 10 ^ exponent`.  Beyond the doubles it is infinite or zero,
which the number of digits tells without raising ten to the exponent. -/
def ofDecimal (mantissa : Nat) (exponent : Int) : Float :=
  let size : Int := (Nat.toDigits 10 mantissa).length + exponent
  if mantissa == 0 || size < -400 then 0.0
  else if 400 < size then 1.0 / 0.0
  else if 0 ≤ exponent then Float.ofScientific mantissa false exponent.toNat
  else Float.ofScientific mantissa true (-exponent).toNat

/-- The exponent at the end of a number. -/
def exponent? : Text → Option Int
  | [] => some 0
  | c :: rest =>
    if c == 'e' || c == 'E' then
      let (negative, digits) :=
        match rest with
        | '-' :: digits => (true, digits)
        | '+' :: digits => (false, digits)
        | digits => (false, digits)
      if digits.isEmpty || !digits.all isDigit then none
      else some (if negative then -(digitsValue 0 digits : Int) else digitsValue 0 digits)
    else none

/-- A number without its sign. -/
def magnitude? (text : Text) : Option Float :=
  let word := upper text
  if word == "INF".toList || word == "INFINITY".toList then some (1.0 / 0.0)
  else if word == "NAN".toList then some (0.0 / 0.0)
  else
    let whole := text.takeWhile isDigit
    let rest := text.dropWhile isDigit
    let (fraction, rest) :=
      match rest with
      | '.' :: rest => (rest.takeWhile isDigit, rest.dropWhile isDigit)
      | rest => ([], rest)
    if whole.isEmpty && fraction.isEmpty then none
    else
      (exponent? rest).map fun e =>
        ofDecimal (digitsValue (digitsValue 0 whole) fraction) (e - fraction.length)

/-- Reads a number, with a sign or without. -/
def read? : Text → Option Float
  | '-' :: rest => (magnitude? rest).map (- ·)
  | '+' :: rest => magnitude? rest
  | text => magnitude? text

end KrlWorkbench.Number
