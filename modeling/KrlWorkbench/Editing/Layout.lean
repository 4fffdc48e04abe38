import KrlWorkbench.Code.Block
import KrlWorkbench.Code.Line
import KrlWorkbench.Code.Token
import KrlWorkbench.Text.Document
import KrlWorkbench.Vocabulary.Keyword

/-!
# Layout of a document

Formatting indents each line by the blocks around it, writes keywords in upper case and ends each
line with a line feed.  Blank lines stay; on request one is put before a block and after it.
Nothing else changes: strings and comments are left as they are.
-/

namespace KrlWorkbench.Layout

open Text

/-- How the document is to be laid out. -/
structure Options where
  tabSize : Nat := 4
  insertSpaces : Bool := true
  blankBeforeBlocks : Bool := false
  blankAfterBlocks : Bool := false
  deriving DecidableEq, Repr, Inhabited

/-- The indentation of one level. -/
def Options.unit (o : Options) : Text :=
  if o.insertSpaces then List.replicate o.tabSize ' ' else ['\t']

/-! ## Keywords of a line -/

/-- Words whose line goes one level back. -/
def dedenting : List Text :=
  ["END", "ENDFCT", "ENDDAT", "ENDIF", "ELSE", "ENDFOR", "ENDWHILE", "ENDLOOP", "UNTIL",
    "ENDSWITCH", "CASE", "DEFAULT", "ENDSPLINE"].map (·.toList)

/-- Words after whose line the level rises. -/
def indenting : List Text :=
  ["DEF", "DEFFCT", "DEFDAT", "IF", "ELSE", "FOR", "WHILE", "LOOP", "REPEAT", "SWITCH", "CASE",
    "DEFAULT", "SPLINE"].map (·.toList)

/-- The word a line of code begins with in upper case, `GLOBAL` skipped; empty if it begins with
no word. -/
def leadingWord (code : Text) : Text :=
  match Token.tokens code with
  | [] => []
  | first :: rest =>
    if first.start != indentBytes code then []
    else if sameName first.text "GLOBAL".toList then
      match rest with
      | second :: _ => upper second.text
      | [] => []
    else upper first.text

/-- Puts tokens in upper case; `here` is the byte offset at which `rest` stands. -/
def raise (here : Nat) (rest : Text) : List Token → Text
  | [] => rest
  | t :: tokens =>
    takeBytes (t.start - here) rest ++ upper t.text ++
      raise t.stop (dropBytes (t.stop - here) rest) tokens

/-- A keyword, unless it stands behind a sign that makes it a name. -/
def isRaised (t : Token) : Bool :=
  !t.isQualified && Keyword.isKeyword t.text

/-- The line with its keywords in upper case; strings and comments stay. -/
def raiseKeywords (line : Text) : Text :=
  raise 0 line ((Token.tokens (Code.clean line)).filter isRaised)

/-- Whether a line of code with this leading word opens a level. A block that the line closes as
well opens none. -/
def opensLevel (word code : Text) : Bool :=
  indenting.contains word &&
    match BlockKind.ofKeyword? word with
    | some (kind, true) =>
      match kind.openerPattern.find? code with
      | some found => !kind.closerPattern.isIn (dropBytes found.whole.stop code)
      | none => true
    | _ => true

def isOpener (word : Text) : Bool :=
  (BlockKind.ofKeyword? word).any (·.2)

def isCloser (word : Text) : Bool :=
  (BlockKind.ofKeyword? word).any fun found => !found.2

/-! ## The document -/

/-- What the lines so far leave behind. -/
structure State where
  level : Nat := 0
  /-- The last line is blank, or there is none. -/
  lastBlank : Bool := true
  /-- A block was closed, and a blank line is due unless the block around it ends too. -/
  blankDue : Bool := false
  deriving DecidableEq, Repr

/-- Lays out a line that is not blank, already trimmed and with its keywords raised. -/
def layLine (o : Options) (s : State) (line : Text) : List Text × State :=
  let code := Code.clean line
  let word := leadingWord code
  let dedents := dedenting.contains word
  let level := if dedents then s.level - 1 else s.level
  let wantsBlank := (o.blankBeforeBlocks && isOpener word) || (s.blankDue && !dedents)
  let laid := (List.replicate level o.unit).flatten ++ line
  (if wantsBlank && !s.lastBlank then [[], laid] else [laid],
    { level := if opensLevel word code then level + 1 else level
      lastBlank := false
      blankDue := o.blankAfterBlocks && isCloser word })

/-- Lays out the lines one by one, with what those before leave behind. -/
def layLines (o : Options) : State → List Text → List Text
  | _, [] => []
  | s, line :: rest =>
    match trim line with
    | [] => [] :: layLines o { s with lastBlank := true, blankDue := false } rest
    | trimmed =>
      let (laid, s) := layLine o s (raiseKeywords trimmed)
      laid ++ layLines o s rest

/-- The lines of a document; the empty piece after a last line end is none. -/
def linesOf (text : Text) : List Text :=
  let lines := text.lines
  if lines.getLast? == some [] then lines.dropLast else lines

/-- The document laid out, with a line feed after each line and at least one. -/
def format (o : Options) (text : Text) : Text :=
  match (layLines o {} (linesOf text)).flatMap (· ++ ['\n']) with
  | [] => ['\n']
  | laid => laid

/-- The text with a line feed for each carriage return and line feed. -/
def plainBreaks : Text → Text
  | [] => []
  | '\r' :: '\n' :: rest => '\n' :: plainBreaks rest
  | c :: rest => c :: plainBreaks rest

/-- The edit that lays out a document; none if it is laid out already. -/
def formatEdits (o : Options) (text : Text) : List TextEdit :=
  let laid := format o text
  if laid == plainBreaks text then [] else [⟨text.wholeRange, laid⟩]

end KrlWorkbench.Layout
