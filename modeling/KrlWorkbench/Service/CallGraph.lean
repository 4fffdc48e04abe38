import KrlWorkbench.Scope.Window
import KrlWorkbench.Code.CursorWord
import KrlWorkbench.Symbol.Collect
import KrlWorkbench.Symbol.Workspace
import KrlWorkbench.Vocabulary.Keyword

/-!
# Who calls whom

A call is a name before an opening parenthesis in code.  Calls into a routine are grouped by the
routine around them, calls out of a routine by the routine called.
-/

namespace KrlWorkbench

open Text

/-- A routine as one end of calls. -/
structure CallItem where
  name : Text
  detail : Text
  uri : Uri
  range : Range
  selection : Range
  deriving DecidableEq, Repr, Inhabited

def CallItem.ofRoutine (uri : Uri) (r : Routine) : CallItem :=
  let selection := r.symbol.range.getD (.point ⟨r.headerLine, 0⟩)
  ⟨r.name, r.label, uri, ⟨⟨r.headerLine, 0⟩, selection.stop⟩, selection⟩

/-- Calls between two routines: the other end, and the places of the calls. -/
structure CallEdge where
  item : CallItem
  ranges : List Range
  deriving DecidableEq, Repr, Inhabited

namespace CallGraph

/-- Adds a call to the edge with its key, or as a new edge after all others. -/
def add {κ : Type} [DecidableEq κ] (key : κ) (item : CallItem) (range : Range) :
    List (κ × CallEdge) → List (κ × CallEdge)
  | [] => [(key, ⟨item, [range]⟩)]
  | (k, edge) :: rest =>
    if k = key then (k, { edge with ranges := edge.ranges ++ [range] }) :: rest
    else (k, edge) :: add key item range rest

/-- The calls by key, in the order in which the keys first come. -/
def group {κ : Type} [DecidableEq κ] (calls : List (κ × CallItem × Range)) : List CallEdge :=
  (calls.foldl (fun edges (key, item, range) => add key item range edges) []).map (·.2)

def callees (code : Text) : List Capture :=
  (LineRule.call.pattern.occurrences code).filterMap (·.group? 1)

/-- The header above a place, in the lines above it, nearest first, with their numbers. The end of
another routine stands in the way. -/
def headerAbove? (text : Text) : List (Text × Nat) → Option Routine
  | [] => none
  | (line, number) :: above =>
    let code := Code.codePart line
    match Routine.ofHeader? text code number with
    | some r => some r
    | none => if LineRule.scopeCloser.holds code then none else headerAbove? text above

/-- The calls of a name in a line, where `above` are the lines above it, nearest first. -/
def callsInLine (file : SourceFile) (name : Text) (above : List (Text × Nat)) (line : Text)
    (number : Nat) : List ((Uri × Nat) × CallItem × Range) :=
  let code := Code.clean line
  if (Routine.ofHeader? file.text code number).isSome then []
  else
    let found := (callees code).filter fun callee =>
      sameName callee.text name &&
        !(takeBytes callee.start code).getLast?.any fun c => c == '$' || c == '#' || c == '.'
    if found.isEmpty then []
    else
      match headerAbove? file.text above with
      | none => []
      | some caller => found.map fun callee =>
          ((file.uri, caller.headerLine), CallItem.ofRoutine file.uri caller,
            file.text.span number callee.start (byteLength callee.text))

/-- The calls of a name in lines of a file; `above` are the lines before them, nearest first. -/
def callsInLines (file : SourceFile) (name : Text) (above : List (Text × Nat)) :
    List (Text × Nat) → List ((Uri × Nat) × CallItem × Range)
  | [] => []
  | (line, number) :: rest =>
    callsInLine file name above line number ++
      callsInLines file name ((line, number) :: above) rest

/-- The node of a name that a document or the workspace defines. -/
def target? (table : SymbolTable) (uri : Uri) (view : WorkspaceView) (name : Text) :
    Option CallItem :=
  ((table.routine? name).map (CallItem.ofRoutine uri)).or
    ((view.routine? name).map fun r => CallItem.ofRoutine r.uri r.routine)

/-- The routine that is named at a position. -/
def at? (text : Text) (uri : Uri) (p : Position) (view : WorkspaceView) : Option CallItem := do
  let place ← Place.at? text p
  let word ← place.word?
  if word.isMember || Keyword.isKeyword word.text then none
  else target? (SymbolTable.collect text) uri view word.text

/-- The calls of a name in some files, by caller. -/
def incoming (files : List SourceFile) (name : Text) : List CallEdge :=
  group (files.flatMap fun file => callsInLines file name [] file.text.lines.zipIdx)

/-- The calls in the body of a routine, by callee. Calls of the routine itself are left out. -/
def outgoing (text : Text) (uri : Uri) (name : Text) (view : WorkspaceView) : List CallEdge :=
  let lines := text.lines
  let table := SymbolTable.collect text
  match table.routine? name with
  | none => []
  | some r =>
    let stop :=
      match Window.around? lines r.headerLine with
      | some window => window.stop
      | none => lines.length - 1
    let body := (lines.zipIdx.take (stop + 1)).drop (r.headerLine + 1)
    group (body.flatMap fun (line, number) =>
      (callees (Code.clean line)).filterMap fun callee =>
        if Keyword.isKeyword callee.text || sameName callee.text name then none
        else (target? table uri view callee.text).map fun item =>
          (upper callee.text, item, text.span number callee.start (byteLength callee.text)))

end CallGraph
end KrlWorkbench
