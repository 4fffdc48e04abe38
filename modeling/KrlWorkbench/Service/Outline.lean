import KrlWorkbench.Scope.Window
import KrlWorkbench.Symbol.Collect
import KrlWorkbench.Symbol.Workspace

/-!
# Outlines

The outline of a document has an entry for each routine and data list, with the declarations of
its lines below it.  The outline of a workspace is flat and lists what other files can use.
-/

namespace KrlWorkbench

open Text

inductive OutlineKind where
  | dataList
  | routine
  | var
  | record
  | enumMember
  | signal
  deriving DecidableEq, Repr, Inhabited

def OutlineKind.ofSymbol : SymbolKind → OutlineKind
  | .function => .routine
  | .record => .record
  | .enumMember => .enumMember
  | .signal => .signal
  | _ => .var

/-- A declaration as the outline shows it. -/
structure OutlineEntry where
  name : Text
  detail : Option Text
  kind : OutlineKind
  range : Range
  selection : Range
  deriving DecidableEq, Repr, Inhabited

/-- An entry and those inside it. -/
structure OutlineNode where
  entry : OutlineEntry
  children : List OutlineEntry
  deriving DecidableEq, Repr, Inhabited

/-- A routine or data list and its lines. -/
structure Container where
  entry : OutlineEntry
  window : Window
  deriving DecidableEq, Repr

namespace Container

/-- The container a line opens; until its end is met, it is that line. -/
def ofLine? (text : Text) (number : Nat) (line : Text) : Option Container :=
  let code := Code.codePart line
  let range := text.span number 0 (byteLength line)
  match Routine.ofHeader? text code number with
  | some r => some ⟨⟨r.name, some r.label, .routine, range, r.symbol.range.getD range⟩,
      ⟨number, number⟩⟩
  | none =>
    ((LineRule.dataListHeader.find? code).bind (·.group? 1)).map fun name =>
      ⟨⟨name.text, some (trim code), .dataList, range,
        text.span number name.start (byteLength name.text)⟩, ⟨number, number⟩⟩

/-- The container when it reaches to the end of a line. -/
def upTo (c : Container) (text : Text) (number : Nat) (line : Text) : Container :=
  ⟨{ c.entry with range := ⟨c.entry.range.start, (text.span number 0 (byteLength line)).stop⟩ },
    ⟨c.window.start, number⟩⟩

/-- The containers of some lines from line `number` on, where `current` is open. Containers do not
nest: headers inside one count for nothing. -/
def scan (text : Text) (number : Nat) (current : Option Container) : List Text → List Container
  | [] => current.toList
  | line :: rest =>
    match current with
    | some c =>
      let c := c.upTo text number line
      if LineRule.scopeCloser.holds (Code.codePart line) then
        c :: scan text (number + 1) none rest
      else scan text (number + 1) (some c) rest
    | none => scan text (number + 1) (ofLine? text number line) rest

end Container

namespace Outline

/-- The declarations that have a place. -/
def declarations (text : Text) : List OutlineEntry :=
  (SymbolTable.collect text).symbols.filterMap fun s =>
    s.range.map fun range => ⟨s.name, s.typeName, .ofSymbol s.kind, range, range⟩

/-- Nodes in the order in which they begin. -/
def leNode (a b : OutlineNode) : Bool :=
  a.entry.range.start.le b.entry.range.start

end Outline

/-- The outline: containers with what they hold, and all else beside them. -/
def outline (text : Text) : List OutlineNode :=
  let containers := Container.scan text 0 none text.lines
  let entries := Outline.declarations text
  let inside (c : Container) (e : OutlineEntry) : Bool := c.window.contains e.range.start.line
  let nodes := containers.map fun c => OutlineNode.mk c.entry (entries.filter (inside c))
  let outer := entries.filter fun e => !containers.any fun c => inside c e
  (nodes ++ outer.map fun e => OutlineNode.mk e []).mergeSort Outline.leNode

/-- A declaration found in the workspace. -/
structure WorkspaceEntry where
  name : Text
  kind : OutlineKind
  location : Location
  containerName : Option Text
  deriving DecidableEq, Repr, Inhabited

namespace WorkspaceEntry

/-- Whether a text contains a part. -/
def isWithin (part : Text) : Text → Bool
  | [] => part.isEmpty
  | c :: rest => startsWith (c :: rest) part || isWithin part rest

/-- Whether other modules see a symbol. -/
def isExported (s : Symbol) : Bool :=
  s.isGlobal || s.kind = .record

end WorkspaceEntry

/-- The routines, structures and global variables with a part of a name, in either case. -/
def workspaceOutline (view : WorkspaceView) (query : Text) : List WorkspaceEntry :=
  let wanted (name : Text) : Bool := WorkspaceEntry.isWithin (upper query) (upper name)
  let routines := (view.routines.filter fun r => wanted r.routine.name).filterMap fun r =>
    r.routine.symbol.range.map fun range =>
      ⟨r.routine.name, .routine, ⟨r.uri, range⟩, none⟩
  let symbols := view.symbols.filter fun s =>
    WorkspaceEntry.isExported s.symbol && wanted s.symbol.name
  routines ++ symbols.filterMap fun s =>
    s.symbol.range.map fun range =>
      ⟨s.symbol.name, .ofSymbol s.symbol.kind, ⟨s.uri, range⟩, s.symbol.typeName⟩

end KrlWorkbench
