import KrlWorkbench.Text.Folding
import KrlWorkbench.Text.WordChar

/-!
# Patterns on a line

A pattern describes a piece of text.  Of the ways in which a pattern fits at a place one is
preferred: an alternative prefers its left side, an option prefers to be there, a repetition
prefers to be long.  `run` tries the ways in that order and hands each end to what has to
follow, so a choice is taken back when the rest does not fit.

Only single characters repeat.  A repetition is therefore a recursion on the text ahead and a
pattern a recursion on its own structure, and neither needs a bound on the number of steps.
-/

namespace KrlWorkbench

/-- A description of a piece of text. -/
inductive Pattern where
  | empty
  | one (p : Char → Bool)
  /-- As many characters with a property as the rest allows. -/
  | many (p : Char → Bool)
  | seq (first second : Pattern)
  | alt (first second : Pattern)
  /-- A piece that is reported under a number. -/
  | group (index : Nat) (body : Pattern)
  | textStart
  | textEnd
  /-- A place with a word character on exactly one side. -/
  | wordBoundary

/-- A piece of a text and the byte offset at which it starts. -/
structure Capture where
  start : Nat
  text : Text
  deriving DecidableEq, Repr, Inhabited

def Capture.stop (c : Capture) : Nat :=
  c.start + Text.byteLength c.text

/-- A place in a text: what stands before it, nearest character first, and what follows. -/
structure Cursor where
  before : Text
  rest : Text
  offset : Nat

namespace Cursor

def ofText (text : Text) : Cursor :=
  ⟨[], text, 0⟩

/-- The place after the next character `c`, with `rest` behind it. -/
def past (here : Cursor) (c : Char) (rest : Text) : Cursor :=
  ⟨c :: here.before, rest, here.offset + c.utf8Size⟩

/-- The piece between two places of a text. -/
def upTo (here there : Cursor) : Capture :=
  ⟨here.offset, here.rest.take (here.rest.length - there.rest.length)⟩

end Cursor

/-- The numbered pieces found so far, latest first. -/
abbrev Groups := List (Nat × Capture)

namespace Pattern

/-! ## Building patterns -/

instance : Append Pattern := ⟨.seq⟩

def atLeastOne (p : Char → Bool) : Pattern :=
  .one p ++ .many p

def blanks : Pattern :=
  .many Text.isBlank

/-- At least one blank. -/
def gap : Pattern :=
  atLeastOne Text.isBlank

def option (body : Pattern) : Pattern :=
  .alt body .empty

/-- Each character of a text in either case. -/
def word (text : Text) : Pattern :=
  text.foldr (fun c rest => .one (Text.sameFold c) ++ rest) .empty

/-- A keyword in any mix of cases. -/
def keyword (k : String) : Pattern :=
  word k.toList

def char (c : Char) : Pattern :=
  .one (· == c)

/-- The first that fits of several keywords. -/
def anyKeyword : List String → Pattern
  | [] => .one fun _ => false
  | [k] => keyword k
  | k :: ks => .alt (keyword k) (anyKeyword ks)

/-- The highest number of a group. -/
def groupCount : Pattern → Nat
  | .seq a b => max a.groupCount b.groupCount
  | .alt a b => max a.groupCount b.groupCount
  | .group i a => max i a.groupCount
  | _ => 0

/-! ## Fitting a pattern at a place -/

/-- Runs over characters with a property, as many as `next` accepts. -/
def runMany {β : Type} (p : Char → Bool) (next : Cursor → Option β) :
    Text → Cursor → Option β
  | [], here => next here
  | c :: rest, here =>
    if p c then
      match runMany p next rest (here.past c rest) with
      | some found => some found
      | none => next here
    else next here

/-- The first way, in order of preference, in which the pattern fits at a place and `next`
accepts the place after it. -/
def run {β : Type} : Pattern → Cursor → Groups → (Cursor → Groups → Option β) → Option β
  | .empty, here, groups, next => next here groups
  | .one p, here, groups, next =>
    match here.rest with
    | c :: rest => if p c then next (here.past c rest) groups else none
    | [] => none
  | .many p, here, groups, next => runMany p (fun there => next there groups) here.rest here
  | .seq a b, here, groups, next =>
    a.run here groups fun there found => b.run there found next
  | .alt a b, here, groups, next =>
    match a.run here groups next with
    | some found => some found
    | none => b.run here groups next
  | .group i a, here, groups, next =>
    a.run here groups fun there found => next there ((i, here.upTo there) :: found)
  | .textStart, here, groups, next => if here.before.isEmpty then next here groups else none
  | .textEnd, here, groups, next => if here.rest.isEmpty then next here groups else none
  | .wordBoundary, here, groups, next =>
    if Text.isWordBoundary here.before.head? here.rest.head? then next here groups else none

end Pattern

/-! ## Searching a text for a pattern

The first match is the one that starts furthest left.  Later matches start at or after the end
of the one before; an empty match that touches the end of the previous match is passed over. -/

/-- A piece of text that fits a pattern, with its numbered parts. -/
structure Match where
  whole : Capture
  groups : Groups

namespace Match

/-- The part with a number, if it took part in the match. -/
def group? (m : Match) (i : Nat) : Option Capture :=
  m.groups.lookup i

/-- Whether a numbered part took part in the match. -/
def has (m : Match) (i : Nat) : Bool :=
  (m.group? i).isSome

/-- The text of a numbered part, empty if it took no part. -/
def text (m : Match) (i : Nat) : Text :=
  ((m.group? i).map (·.text)).getD []

end Match

namespace Pattern

/-- The match that starts at a place, and the place after it. -/
def matchAt (p : Pattern) (here : Cursor) : Option (Match × Cursor) :=
  p.run here [] fun there groups => some (⟨here.upTo there, groups⟩, there)

/-- The leftmost match from a place on. -/
def findFrom (p : Pattern) : Text → Cursor → Option Match
  | [], here => (p.matchAt here).map (·.1)
  | c :: rest, here =>
    match p.matchAt here with
    | some (m, _) => some m
    | none => findFrom p rest (here.past c rest)

/-- The leftmost match in a text. -/
def find? (p : Pattern) (text : Text) : Option Match :=
  p.findFrom text (Cursor.ofText text)

/-- Whether the pattern fits somewhere. -/
def isIn (p : Pattern) (text : Text) : Bool :=
  (p.find? text).isSome

/-- The matches from a place on; `last` is where the previous match ended. -/
def occurrencesFrom (p : Pattern) (here : Cursor) (last : Option Nat) : List Match :=
  let onward : Unit → List Match := fun _ =>
    match _hrest : here.rest with
    | [] => []
    | c :: rest => occurrencesFrom p (here.past c rest) last
  match p.matchAt here with
  | none => onward ()
  | some (m, there) =>
    if there.rest.length < here.rest.length then m :: occurrencesFrom p there (some there.offset)
    else if last == some here.offset then onward ()
    else m :: onward ()
termination_by here.rest.length
decreasing_by
  · simp [_hrest, Cursor.past]
  · assumption

/-- All matches in a text, none beginning before the one in front of it ends. -/
def occurrences (p : Pattern) (text : Text) : List Match :=
  p.occurrencesFrom (Cursor.ofText text) none

/-- A name as a whole word, in either case. -/
def wholeWord (name : Text) : Pattern :=
  .wordBoundary ++ word name ++ .wordBoundary

end Pattern
end KrlWorkbench
