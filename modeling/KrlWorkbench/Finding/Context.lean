import KrlWorkbench.Finding.Cause
import KrlWorkbench.Symbol.Collect
import KrlWorkbench.Symbol.Workspace
import KrlWorkbench.Vocabulary.Keyword
import KrlWorkbench.Vocabulary.LibraryFunction

/-!
# What the checks look at

A document prepared for checking: each line with its code, strings blanked out, and its kind, the
document's own symbols, and the view of the workspace.
-/

namespace KrlWorkbench

open Text

/-- A finding: what is wrong, and where. -/
structure Finding where
  range : Range
  cause : Cause
  deriving Inhabited

/-- A line prepared for checking. -/
structure SourceLine where
  number : Nat
  raw : Text
  /-- The code with strings blanked out; byte columns are those of `raw`. -/
  code : Text
  kind : LineKind
  deriving DecidableEq, Repr

/-- A document prepared for checking. -/
structure Context where
  text : Text
  lines : List SourceLine
  table : SymbolTable
  /-- Keys of the structures of the document and the workspace. -/
  types : List Text
  /-- Keys of everything the document and the workspace declare. -/
  declared : List Text
  view : WorkspaceView

namespace Context

def ofText (text : Text) (view : WorkspaceView) : Context :=
  let table := SymbolTable.collect text
  let types := view.typeKeys ++ table.types.map (·.key)
  { text := text
    lines := text.lines.zipIdx.map fun (raw, i) =>
      ⟨i, raw, Code.clean raw, LineKind.ofLine types raw⟩
    table := table
    types := types
    declared := table.declaredKeys ++ types ++ view.declaredKeys
    view := view }

/-- The range of `length` bytes from a byte column of a line. -/
def span (ctx : Context) (line column length : Nat) : Range :=
  ctx.text.span line column length

/-- The range of a line's code without the blanks around it. -/
def codeRange (ctx : Context) (line : SourceLine) : Range :=
  ctx.span line.number (indentBytes line.code) (byteLength (trim line.code))

/-- Whether a name needs no declaration or has one. -/
def isKnown (ctx : Context) (name : Text) : Bool :=
  Keyword.isKeyword name || BuiltinType.isBuiltinType name || (LibraryFunction.find? name).isSome
    || ctx.declared.contains (upper name)

/-- The type of a variable, as the document declares it or else the workspace. -/
def variableType? (ctx : Context) (name : Text) : Option Text :=
  ((ctx.table.symbol? name).bind (·.typeName)).or
    ((ctx.view.symbol? name).bind fun s => s.symbol.typeName)

/-- A name made of ASCII letters, digits and underscores, digits first if it likes. -/
def isPlainName (name : Text) : Bool :=
  !name.isEmpty && name.all isNameChar

/-- The names a line of code declares as variables or as a signal, with their byte columns. -/
def declaredIn (ctx : Context) (code : Text) : List Capture :=
  match LineRule.signal.find? code with
  | some found => (found.group? 2).toList
  | none =>
    match TypedList.ofCode? ctx.types code with
    | none => []
    | some parts =>
      (ListItem.split parts.list).filterMap fun item =>
        if isPlainName item.name then some ⟨parts.listStart + item.nameOffset, item.name⟩ else none

end Context
end KrlWorkbench
