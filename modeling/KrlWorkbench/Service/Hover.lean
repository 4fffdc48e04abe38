import KrlWorkbench.Scope.Window
import KrlWorkbench.Code.CursorWord
import KrlWorkbench.Symbol.Workspace
import KrlWorkbench.Symbol.Collect
import KrlWorkbench.Vocabulary.Keyword
import KrlWorkbench.Vocabulary.LibraryFunction

/-!
# What a name stands for

A short description, in Markdown, of the identifier at a position.  Names are looked up in this
order: members, system variables, routines, declarations of the block around, of the document and
of the workspace, types, library functions, keywords.
-/

namespace KrlWorkbench

open Text

/-- A description and the identifier it belongs to. -/
structure Hover where
  markdown : Text
  range : Range
  deriving DecidableEq, Repr, Inhabited

namespace Hover

def join (pieces : List String) : Text :=
  ("".intercalate pieces).toList

/-- A name inside Markdown. -/
def plain (name : Text) : Text :=
  (trim name).flatMap fun c =>
    if c == '|' then "\\|".toList else if c == '\n' then "<br>".toList else [c]

def codeBlock (code : Text) : Text :=
  "```krl\n".toList ++ code ++ "\n```".toList

/-- A paragraph that names a file. -/
def fileNote (lead : String) (uri : Uri) : Text :=
  ("\n\n" ++ lead ++ " `").toList ++ uri.fileName ++ ['`']

/-- The description of a member, if the owner's type has it. -/
def member? (table : SymbolTable) (view : WorkspaceView) (member owner : Text) : Option Text := do
  let typeName ← ownerType? table view owner
  let members ← membersOfType? table view typeName
  if members.any (sameName member) then
    return "**Member** `".toList ++ plain member ++ "` of `".toList ++ plain typeName ++ ['`']
  else none

def ofRoutine (r : Routine) (uri : Option Uri) : Text :=
  codeBlock r.label ++ (uri.map (fileNote "Defined in")).getD []

/-- The declaration of a symbol in a uniform layout. -/
def declarationOf (s : Symbol) : Text :=
  match s.kind with
  | .signal => "SIGNAL ".toList ++ s.name ++ ' ' :: s.value.getD []
  | .record => "STRUC ".toList ++ s.name
  | .enumMember => '#' :: s.name ++ " (".toList ++ s.typeName.getD "ENUM".toList ++ [')']
  | _ =>
    "DECL ".toList ++ s.typeName.getD ['?'] ++ ' ' :: s.name ++
      (s.value.map (" = ".toList ++ ·)).getD []

/-- A variable, parameter, signal, structure or enumeration value. -/
def ofSymbol (s : Symbol) (uri : Option Uri) : Text :=
  codeBlock (trimEnd (declarationOf s)) ++
    ("\n\n" ++ s.kind.label ++ " (" ++ (if s.isGlobal then "global" else "local") ++ ")").toList ++
    (uri.map (fileNote "Declared in")).getD []

def ofType (d : TypeDefinition) : Text :=
  codeBlock ((if d.isEnum then "ENUM " else "STRUC ").toList ++ d.name ++ ' ' ::
    (", ".toList).intercalate d.members)

/-- The symbol with a name in the block around a line. The table of a document keeps the first
declaration of a name only, so the lines of the block are collected on their own. -/
def inBlock? (lines : List Text) (number : Nat) (name : Text) : Option Symbol := do
  let window ← Window.around? lines number
  let block := (lines.drop window.start).take (window.stop - window.start + 1)
  (SymbolTable.collect (['\n'].intercalate block)).symbol? name

def ofSystem (v : SystemVariable) : Text :=
  join ["**System variable** `", v.name, "`: `", v.typeName, "`\n\n", v.doc]

/-- A name that is no member. -/
def name? (place : Place) (table : SymbolTable) (view : WorkspaceView) (name : Text) :
    Option Text :=
  ((SystemVariable.find? name).map ofSystem).or <|
  ((table.routine? name).map (ofRoutine · none)).or <|
  ((view.routine? name).map fun r => ofRoutine r.routine (some r.uri)).or <|
  ((inBlock? place.lines place.number name).map (ofSymbol · none)).or <|
  ((table.symbol? name).map (ofSymbol · none)).or <|
  ((view.symbol? name).map fun s => ofSymbol s.symbol (some s.uri)).or <|
  (((table.type? name).or (view.type? name)).map ofType).or <|
  ((BuiltinType.members? name).map fun members =>
    "**Type** `".toList ++ upper name ++
      ("`\n\nMembers: " ++ ", ".intercalate members).toList).or <|
  ((LibraryFunction.find? name).map fun f =>
    codeBlock f.header.toList ++ ("\n\n" ++ f.doc).toList).or <|
  (Keyword.find? name).map fun k => join ["**", k.name, "**\n\n", k.doc]

end Hover

/-- The description of the identifier at a position. -/
def hover? (text : Text) (p : Position) (view : WorkspaceView) : Option Hover := do
  let place ← Place.at? text p
  let word ← place.word?
  let table := SymbolTable.collect text
  let markdown ←
    if word.isMember then do Hover.member? table view word.text (← word.owner)
    else Hover.name? place table view word.text
  return ⟨markdown, text.span place.number word.start (word.stop - word.start)⟩

end KrlWorkbench
