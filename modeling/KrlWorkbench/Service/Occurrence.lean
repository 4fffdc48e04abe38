import KrlWorkbench.Code.CursorWord
import KrlWorkbench.Finding.Declaration
import KrlWorkbench.Scope.Window

/-!
# Uses of a name

References and renaming.  A name is used wherever it stands as a whole word of the code, in either
case, outside strings, and is not part of a system variable or a member.
-/

namespace KrlWorkbench

open Text

/-- The places in a line where a pattern stands in code. -/
def codeOccurrences (p : Pattern) (line : Text) : List Capture :=
  ((p.occurrences (Code.codePart line)).map (·.whole)).filter fun found =>
    !Code.inString line found.start

/-- Whether a place in a line of code belongs to a system variable or is a member. -/
def isOwned (code : Text) (column : Nat) : Bool :=
  (takeBytes column code).getLast?.any fun c => c == '$' || c == '.'

/-- Whether a name at a place in a line is declared there: the line declares and no equals sign
precedes. -/
def isDeclaring (line : Text) (column : Nat) : Bool :=
  match LineKind.ofLine [] line with
  | .declaration _ => !(takeBytes column (Code.codePart line)).contains '='
  | _ => false

/-- The uses of a name in a line, members of variables left out. -/
def usesInLine (name line : Text) : List Capture :=
  (codeOccurrences (Pattern.wholeWord name) line).filter fun found =>
    !isOwned (Code.codePart line) found.start

/-- The uses of a name in some files, with or without its declarations. -/
def references (files : List SourceFile) (name : Text) (withDeclaration : Bool) : List Location :=
  files.flatMap fun file =>
    file.text.lines.zipIdx.flatMap fun (line, number) =>
      ((usesInLine name line).filter fun found =>
        withDeclaration || !isDeclaring line found.start).map fun found =>
        ⟨file.uri, file.text.span number found.start (byteLength found.text)⟩

/-! ## Renaming -/

namespace Rename

/-- Whether a name is the user's own. -/
def isFree (name : Text) : Bool :=
  isIdentifier name && !Keyword.isKeyword name && !BuiltinType.isBuiltinType name
    && (LibraryFunction.find? name).isNone

/-- Why a name is not given. -/
inductive Refusal where
  | notIdentifier (name : Text)
  | reserved (name : Text)
  | tooLong (name : Text)
  deriving DecidableEq, Repr

def Refusal.message : Refusal → String
  | .notIdentifier name => s!"'{String.ofList name}' is not a valid identifier"
  | .reserved name => s!"'{String.ofList name}' is a reserved word"
  | .tooLong name =>
    s!"'{String.ofList name}' is longer than {Finding.maxNameLength} characters"

/-- Whether a name may be given. -/
def check (name : Text) : Except Refusal Unit :=
  if !isIdentifier name then .error (.notIdentifier name)
  else if !isFree name then .error (.reserved name)
  else if Finding.maxNameLength < byteLength name then .error (.tooLong name)
  else .ok ()

/-- The user's own name at a position. -/
def wordAt? (text : Text) (p : Position) : Option (Place × CursorWord) := do
  let place ← Place.at? text p
  if place.inCode && !place.inString then
    let word ← place.word?
    if isFree word.text then return (place, word) else none
  else none

/-- The name at a position that can be renamed. -/
def nameAt? (text : Text) (p : Position) : Option Text :=
  (wordAt? text p).map (·.2.text)

/-- Where the name at a position stands. -/
def rangeAt? (text : Text) (p : Position) : Option Range :=
  (wordAt? text p).map fun (place, word) =>
    text.span place.number word.start (word.stop - word.start)

/-- Adds an edit to those of its file. -/
def addEdit (uri : Uri) (edit : TextEdit) : List (Uri × List TextEdit) → List (Uri × List TextEdit)
  | [] => [(uri, [edit])]
  | (u, edits) :: rest =>
    if u = uri then (u, edits ++ [edit]) :: rest else (u, edits) :: addEdit uri edit rest

/-- The edits that put a new name for a name, file by file. -/
def edits (files : List SourceFile) (name newName : Text) : List (Uri × List TextEdit) :=
  (references files name true).foldl
    (fun done found => addEdit found.uri ⟨found.range, newName⟩ done) []

end Rename

/-! ## Summaries of routines

Above each routine stands how often the workspace uses it and how many lines it has. -/

/-- What stands above a routine. -/
structure RoutineSummary where
  /-- The header line. -/
  range : Range
  uses : Nat
  lines : Nat
  deriving DecidableEq, Repr, Inhabited

namespace RoutineSummary

def counted (count : Nat) (noun : String) : String :=
  if count == 1 then s!"{count} {noun}" else s!"{count} {noun}s"

def title (s : RoutineSummary) : String :=
  counted s.uses "reference" ++ " · " ++ counted s.lines "line"

end RoutineSummary

/-- The summaries of the routines of a text, with uses counted in some files. -/
def routineSummaries (text : Text) (files : List SourceFile) : List RoutineSummary :=
  let lines := text.lines
  (SymbolTable.collect text).routines.map fun r =>
    { range := text.span r.headerLine 0 (byteLength (lines.getD r.headerLine []))
      uses := (references files r.name false).length
      lines :=
        match Window.around? lines r.headerLine with
        | some window => window.stop - window.start + 1
        | none => 1 }

/-! ## Highlights

On a block keyword the keyword and its partner, elsewhere every use of the word in the document. -/

/-- How a highlighted place is used. -/
inductive HighlightKind where
  | text
  | read
  | write
  deriving DecidableEq, Repr, Inhabited

structure Highlight where
  range : Range
  kind : HighlightKind
  deriving DecidableEq, Repr, Inhabited

namespace Highlight

/-- How many lines on the partner of a keyword is, in lines that lead away from it: the first one
that matches `closing` when each that matches `opening` has to be closed before. -/
def partnerIn (opening closing : Pattern) (depth : Nat) : List Text → Option Nat
  | [] => none
  | line :: rest =>
    let code := Code.clean line
    if opening.isIn code then (partnerIn opening closing (depth + 1) rest).map (· + 1)
    else if closing.isIn code then
      match depth with
      | 0 => some 0
      | depth + 1 => (partnerIn opening closing depth rest).map (· + 1)
    else (partnerIn opening closing depth rest).map (· + 1)

/-- The lines of the two keywords of a block, from the keyword on one of them. -/
def pairLines? (lines : List Text) (number : Nat) (kind : BlockKind) (opens : Bool) :
    Option (Nat × Nat) := do
  let code := Code.clean (← lines[number]?)
  let opener := kind.openerPattern
  let closer := kind.closerPattern
  if opens then
    if opener.isIn code then
      return (number, number + 1 + (← partnerIn opener closer 0 (lines.drop (number + 1))))
    else none
  else
    if closer.isIn code then
      return (number - 1 - (← partnerIn closer opener 0 (lines.take number).reverse), number)
    else none

/-- The first place of a keyword in a line. -/
def keywordRange? (text : Text) (lines : List Text) (number : Nat) (keyword : String) :
    Option Range := do
  let found ← (Pattern.wholeWord keyword.toList).find? (Code.clean (← lines[number]?))
  return text.span number found.whole.start (byteLength found.whole.text)

/-- The two keywords of the block, if the word is one of them. -/
def pair? (text : Text) (place : Place) (word : Text) : Option (List Highlight) := do
  let (kind, opens) ← BlockKind.ofKeyword? word
  let (first, last) ← pairLines? place.lines place.number kind opens
  let opener ← keywordRange? text place.lines first kind.opener
  let closer ← keywordRange? text place.lines last kind.closer
  return [⟨opener, .text⟩, ⟨closer, .text⟩]

/-- The pattern of a word, a system variable with its dollar sign or a name. -/
def wordPattern (word : Text) : Pattern :=
  if word.head? == some '$' then Pattern.word word ++ .wordBoundary else Pattern.wholeWord word

/-- Whether a place in a line is given a value: declared, or before an equals sign that compares
nothing. -/
def isWritten (line : Text) (found : Capture) : Bool :=
  isDeclaring line found.start ||
    match trimStart (dropBytes found.stop (Code.codePart line)) with
    | '=' :: '=' :: _ => false
    | '=' :: _ => true
    | _ => false

/-- Every use of a word in the document. -/
def uses (text : Text) (lines : List Text) (word : Text) : List Highlight :=
  let isSystem := word.head? == some '$'
  lines.zipIdx.flatMap fun (line, number) =>
    ((codeOccurrences (wordPattern word) line).filter fun found =>
      isSystem || !isOwned (Code.codePart line) found.start).map fun found =>
      ⟨text.span number found.start (byteLength found.text),
        if isWritten line found then .write else .read⟩

end Highlight

/-- The highlights for a position; none in comments and strings. -/
def highlights (text : Text) (p : Position) : List Highlight :=
  match Place.at? text p with
  | none => []
  | some place =>
    if place.inCode && !place.inString then
      match place.word? with
      | none => []
      | some word =>
        (Highlight.pair? text place word.text).getD (Highlight.uses text place.lines word.text)
    else []

end KrlWorkbench
