import KrlWorkbench.Code.Block
import KrlWorkbench.Finding.Context

/-!
# Checks of blocks

Block keywords have to pair up.  A closer takes the nearest open block of its kind; blocks opened
after that one are given up, and the closer carries the finding.  Blocks without statements are
reported at their opener.
-/

namespace KrlWorkbench.Finding

open Text

/-! ## Pairing -/

/-- The block keywords of the document, in the order of the text. -/
def blockEvents (ctx : Context) : List BlockEvent :=
  ctx.lines.flatMap fun line => BlockEvent.ofLine line.code line.number

def eventRange (ctx : Context) (event : BlockEvent) : Range :=
  ctx.span event.line event.column event.keyword.length

/-- The finding for a block that is never closed. -/
def unclosed (ctx : Context) (opened : BlockEvent) : Finding :=
  ⟨eventRange ctx opened, .unclosedBlock opened.kind.opener opened.kind.closer⟩

/-- Pairs the keywords, where `stack` holds the open blocks, innermost first. -/
def balanceFrom (ctx : Context) : List BlockEvent → List BlockEvent → List Finding
  | stack, [] => stack.reverse.map (unclosed ctx)
  | stack, event :: rest =>
    if event.opens then balanceFrom ctx (event :: stack) rest
    else
      match stack.dropWhile fun o => o.kind != event.kind, stack with
      | _ :: below, top :: _ =>
        if top.kind = event.kind then balanceFrom ctx below rest
        else
          ⟨eventRange ctx event, .mismatchedCloser event.kind.closer top.kind.closer⟩ ::
            balanceFrom ctx below rest
      | _, _ =>
        ⟨eventRange ctx event, .unexpectedCloser event.kind.closer event.kind.opener⟩ ::
          balanceFrom ctx stack rest

/-- Block keywords that do not pair up. -/
def balance (ctx : Context) : List Finding :=
  balanceFrom ctx [] (blockEvents ctx)

/-! ## Empty blocks -/

/-- Whether a line is an `ELSE` and nothing else. -/
def isBareElse (code : Text) : Bool :=
  sameName (trim code) "ELSE".toList

/-- Of the closers in a line the one that closes the block at hand, if `depth` blocks inside it
are open; else the depth after the line. -/
def closeIn (depth : Nat) : List Match → Nat ⊕ Nat
  | [] => .inl depth
  | found :: rest => if depth = 0 then .inr found.whole.start else closeIn (depth - 1) rest

/-- The lines up to the closer of the block at hand, its line, and its byte column there. -/
def closerFrom (kind : BlockKind) (depth : Nat) :
    List SourceLine → Option (List SourceLine × SourceLine × Nat)
  | [] => none
  | line :: rest =>
    let depth := if kind.openerPattern.isIn line.code then depth + 1 else depth
    match closeIn depth (kind.closerPattern.occurrences line.code) with
    | .inr column => some ([], line, column)
    | .inl depth =>
      (closerFrom kind depth rest).map fun (inner, last, column) => (line :: inner, last, column)

/-- Whether no statement stands in the lines of a body and before its closer. -/
def isEmptyBody (inner : List SourceLine) (last : SourceLine) (column : Nat) : Bool :=
  inner.all (fun line => !line.kind.isCode || isBareElse line.code)
    && allBlank (takeBytes column last.code)

/-- The finding for a line that opens an empty block, closed on a later line. -/
def emptyAt (ctx : Context) (kind : BlockKind) (line : SourceLine) (rest : List SourceLine) :
    List Finding :=
  match kind.openerPattern.find? line.code with
  | none => []
  | some found =>
    if kind.closerPattern.isIn (dropBytes found.whole.stop line.code) then []
    else
      match closerFrom kind 0 rest with
      | none => []
      | some (inner, last, column) =>
        if isEmptyBody inner last column then
          [⟨ctx.span line.number (found.whole.stop - kind.opener.length) kind.opener.length,
            .emptyBlock kind.opener⟩]
        else []

/-- Empty blocks of a kind that open in some lines. -/
def emptyFrom (ctx : Context) (kind : BlockKind) : List SourceLine → List Finding
  | [] => []
  | line :: rest => emptyAt ctx kind line rest ++ emptyFrom ctx kind rest

/-- The kinds of block that ought to hold something. -/
def emptyChecked : List BlockKind :=
  [.ifBlock, .forBlock, .whileBlock, .loopBlock]

/-- Empty blocks, kind by kind. -/
def emptyBlocks (ctx : Context) : List Finding :=
  emptyChecked.flatMap fun kind => emptyFrom ctx kind ctx.lines

end KrlWorkbench.Finding
