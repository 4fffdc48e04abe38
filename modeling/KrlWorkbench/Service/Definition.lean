import KrlWorkbench.Scope.Search
import KrlWorkbench.Code.CursorWord
import KrlWorkbench.Symbol.Collect
import KrlWorkbench.Symbol.Workspace
import KrlWorkbench.Vocabulary.Keyword

/-!
# Where a name is declared

Routines are found in the collected tables.  Variables and structures are searched in the block
around the position, then among its parameters and the jump labels, then in the document, then in
the files of the workspace.
-/

namespace KrlWorkbench

open Text

/-- What a search reads besides the document. -/
structure Surroundings where
  roots : List Path
  view : WorkspaceView
  filesUnder : Path → List Path
  read : Path → Option Text

namespace Definition

def isRecord (table : SymbolTable) (view : WorkspaceView) (name : Text) : Bool :=
  table.types.any (fun d => !d.isEnum && sameName d.name name)
    || (view.type? name).any fun d => !d.isEnum

/-- A parameter in the list of the header on line `header`. -/
def parameter? (text : Text) (table : SymbolTable) (header : Nat) (name : Text) :
    Option Range := do
  let routine ← table.routines.find? fun r => r.headerLine == header
  if routine.params.any fun param => sameName param.name name then
    let code := Code.codePart (← text.lines[header]?)
    let list := code.dropWhile (· != '(')
    if list.isEmpty then none
    else
      let found ← (Pattern.wholeWord name).find? list
      let column := byteLength code - byteLength list + found.whole.start
      return text.span header column (byteLength found.whole.text)
  else none

/-- The name of a jump label, if a line of code is one. -/
def labelOf? (code : Text) : Option Text :=
  match (trim code).reverse with
  | ':' :: back => some (trimEnd back.reverse)
  | _ => none

/-- The first jump label with a name. -/
def label? (text : Text) (name : Text) : Option Range :=
  text.lines.zipIdx.findSome? fun (line, number) =>
    let code := Code.codePart line
    (labelOf? code).bind fun label =>
      if sameName label name then some (text.span number (indentBytes code) (byteLength label))
      else none

/-- The location of what was found; a document asked about keeps its own URI. -/
def locate? (uri : Uri) (found : Declaration) : Option Location :=
  if found.path == uri.searchPath then some ⟨uri, found.range⟩
  else (Uri.ofPath? found.path).map fun target => ⟨target, found.range⟩

/-- A declaration in the block around a line. -/
def inBlock? (text : Text) (uri : Uri) (table : SymbolTable) (kind : SearchKind) (number : Nat)
    (name : Text) : Option Location := do
  let window ← Window.around? text.lines number
  ((Declaration.inText? name kind uri.searchPath text (some window)).bind (locate? uri)).or
    ((parameter? text table window.start name).map fun range => ⟨uri, range⟩)

/-- A declaration of a name that is no routine. -/
def data? (text : Text) (uri : Uri) (around : Surroundings) (table : SymbolTable) (number : Nat)
    (name : Text) : Option Location :=
  let kind : SearchKind := if isRecord table around.view name then .record else .var
  (inBlock? text uri table kind number name).or <|
  ((label? text name).map fun range => ⟨uri, range⟩).or <|
  (((table.symbol? name).bind (·.range)).map fun range => ⟨uri, range⟩).or <|
  (around.roots.findSome? fun root =>
    (Declaration.inFiles? name kind around.read (around.filesUnder root)).bind (locate? uri)).or <|
  (around.view.symbol? name).bind fun s => s.symbol.range.map fun range => ⟨s.uri, range⟩

end Definition

/-- The declaration of the identifier at a position. -/
def definition? (text : Text) (uri : Uri) (p : Position) (around : Surroundings) :
    Option Location := do
  let place ← Place.at? text p
  if place.inCode then
    let word ← place.word?
    if word.isMember || word.text.head? == some '$' || Keyword.isKeyword word.text then none
    else
      let table := SymbolTable.collect text
      match table.routine? word.text, around.view.routine? word.text with
      | some r, _ => r.symbol.range.map fun range => ⟨uri, range⟩
      | none, some r => r.routine.symbol.range.map fun range => ⟨r.uri, range⟩
      | none, none => Definition.data? text uri around table place.number word.text
  else none

end KrlWorkbench
