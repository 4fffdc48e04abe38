import KrlWorkbench.Pattern.Basic

/-!
# Blocks

Nine kinds of block, each with a keyword that opens and one that closes it.  An opener stands at
the start of a line, a closer anywhere in it; the routine openers may follow `GLOBAL`.  The
events of a line are its openers and closers in column order.
-/

namespace KrlWorkbench

/-- The constructs that an opening and a closing keyword enclose. -/
inductive BlockKind where
  | ifBlock
  | forBlock
  | whileBlock
  | loopBlock
  | repeatBlock
  | switchBlock
  | routine
  | function
  | dataList
  deriving DecidableEq, Repr, Inhabited

namespace BlockKind

/-- All kinds, in the order in which their keywords are looked for. -/
def all : List BlockKind :=
  [.ifBlock, .forBlock, .whileBlock, .loopBlock, .repeatBlock, .switchBlock, .routine, .function,
    .dataList]

def opener : BlockKind → String
  | .ifBlock => "IF"
  | .forBlock => "FOR"
  | .whileBlock => "WHILE"
  | .loopBlock => "LOOP"
  | .repeatBlock => "REPEAT"
  | .switchBlock => "SWITCH"
  | .routine => "DEF"
  | .function => "DEFFCT"
  | .dataList => "DEFDAT"

def closer : BlockKind → String
  | .ifBlock => "ENDIF"
  | .forBlock => "ENDFOR"
  | .whileBlock => "ENDWHILE"
  | .loopBlock => "ENDLOOP"
  | .repeatBlock => "UNTIL"
  | .switchBlock => "ENDSWITCH"
  | .routine => "END"
  | .function => "ENDFCT"
  | .dataList => "ENDDAT"

/-- The kind a keyword belongs to, and whether it opens the block. -/
def ofKeyword? (word : Text) : Option (BlockKind × Bool) :=
  let upper := Text.upper word
  all.findSome? fun kind =>
    if kind.opener.toList == upper then some (kind, true)
    else if kind.closer.toList == upper then some (kind, false)
    else none

/-- The opener at the start of a line. -/
def openerPattern (kind : BlockKind) : Pattern :=
  let lead : Pattern :=
    match kind with
    | .routine | .function => .option (.keyword "GLOBAL" ++ .gap)
    | _ => .empty
  .textStart ++ .blanks ++ lead ++ .keyword kind.opener ++ .wordBoundary

/-- The closer anywhere in a line. -/
def closerPattern (kind : BlockKind) : Pattern :=
  .wholeWord kind.closer.toList

end BlockKind

/-- A block keyword at its place. -/
structure BlockEvent where
  kind : BlockKind
  opens : Bool
  line : Nat
  column : Nat
  deriving DecidableEq, Repr, Inhabited

namespace BlockEvent

/-- The keyword, as the language spells it. -/
def keyword (event : BlockEvent) : String :=
  if event.opens then event.kind.opener else event.kind.closer

/-- Puts an event behind all events of the same or a smaller column. -/
def insertByColumn (event : BlockEvent) : List BlockEvent → List BlockEvent
  | [] => [event]
  | first :: rest =>
    if event.column < first.column then event :: first :: rest
    else first :: insertByColumn event rest

/-- The events of one kind in a line of code: its opener, then its closers. -/
def ofKind (code : Text) (line : Nat) (kind : BlockKind) : List BlockEvent :=
  let opener :=
    match kind.openerPattern.find? code with
    | some found => [⟨kind, true, line, found.whole.stop - kind.opener.length⟩]
    | none => []
  opener ++ (kind.closerPattern.occurrences code).map fun found =>
    ⟨kind, false, line, found.whole.start⟩

/-- Opener and closer keywords of a line of code in column order. -/
def ofLine (code : Text) (line : Nat) : List BlockEvent :=
  (BlockKind.all.flatMap (ofKind code line)).foldl
    (fun sorted event => insertByColumn event sorted) []

end BlockEvent
end KrlWorkbench
