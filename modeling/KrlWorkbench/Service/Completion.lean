import KrlWorkbench.Code.CursorWord
import KrlWorkbench.Symbol.Collect
import KrlWorkbench.Symbol.Workspace
import KrlWorkbench.Vocabulary.Keyword
import KrlWorkbench.Vocabulary.LibraryFunction

/-!
# Completion

What may be typed at a place: after a point the members of the variable before it, elsewhere
routines, library functions, keywords, system variables and variables.  Every item replaces what
has been typed of it.
-/

namespace KrlWorkbench

open Text

/-- The kind of item a client is told. -/
inductive CompletionKind where
  | function
  | field
  | var
  | keyword
  | enumMember
  | constant
  | record
  deriving DecidableEq, Repr, Inhabited

/-- Something that may be typed. -/
structure CompletionItem where
  label : Text
  kind : CompletionKind
  detail : Option Text := none
  documentation : Option String := none
  sortText : Text
  /-- The new text holds placeholders. -/
  isSnippet : Bool := false
  edit : TextEdit
  deriving DecidableEq, Repr, Inhabited

namespace Completion

/-- The groups of items, in the order in which they are to be shown. -/
inductive Tier where
  | userFunction
  | library
  | keyword
  | system
  | var
  deriving DecidableEq, Repr

def Tier.digit : Tier → Char
  | .userFunction => '0'
  | .library => '1'
  | .keyword => '2'
  | .system => '3'
  | .var => '4'

/-- Where completion is asked for, and what has been typed there. -/
structure Request where
  position : Position
  typed : Text
  deriving DecidableEq, Repr

/-- Whether a name begins with what has been typed, in either case. -/
def Request.accepts (r : Request) (name : Text) : Bool :=
  let head := takeBytes (byteLength r.typed) name
  byteLength head == byteLength r.typed && sameName head r.typed

/-- The edit that puts a text in the place of what has been typed. -/
def Request.edit (r : Request) (newText : Text) : TextEdit :=
  ⟨⟨⟨r.position.line, r.position.character - unitLength r.typed⟩, r.position⟩, newText⟩

/-- The key by which items are sorted: tier, then whether the case is as typed, then name. -/
def Request.sortText (r : Request) (tier : Tier) (label : Text) : Text :=
  let rank := if r.typed.isEmpty || !startsWith label r.typed then '1' else '0'
  tier.digit :: rank :: '_' :: lower label

/-! ## Members -/

/-- Items for the members of the variable in front of a point. -/
def memberItems (r : Request) (table : SymbolTable) (view : WorkspaceView) (owner : Text) :
    List CompletionItem :=
  match ownerType? table view owner with
  | none => []
  | some typeName =>
    (((membersOfType? table view typeName).getD []).filter r.accepts).map fun member =>
      { label := member
        kind := .field
        detail := some (typeName ++ " member".toList)
        sortText := r.sortText .var member
        edit := r.edit member }

/-! ## Names -/

/-- A call with a placeholder for each parameter. -/
def snippet (name : Text) (params : List Text) : Text :=
  let holes := params.zipIdx.map fun (param, i) =>
    "$\x7b".toList ++ (toString (i + 1)).toList ++ ':' :: param ++ ['\x7d']
  name ++ '(' :: (", ".toList).intercalate holes ++ [')']

/-- Keeps the first of several entries with one key. -/
def firstByKey {α : Type} (key : α → Text) (seen : List Text) : List α → List α
  | [] => []
  | a :: rest =>
    if seen.contains (key a) then firstByKey key seen rest
    else a :: firstByKey key (key a :: seen) rest

/-- The routines of the document and the workspace, the document's own first. -/
def routines (table : SymbolTable) (view : WorkspaceView) : List Routine :=
  firstByKey Routine.key [] (table.routines ++ view.routines.map (·.routine))

/-- Items for routines, each a call with its parameters to fill in. -/
def routineItems (r : Request) (found : List Routine) : List CompletionItem :=
  (found.filter fun f => r.accepts f.name).map fun f =>
    { label := f.name
      kind := .function
      detail := some f.label
      sortText := r.sortText .userFunction f.name
      isSnippet := true
      edit := r.edit (snippet f.name (f.params.map (·.name))) }

/-- The name of a parameter in the header of a library function. -/
def paramName (param : String) : Text :=
  ListItem.stripIndex (trim (param.toList.takeWhile (· != ':')))

/-- Library functions whose names no routine takes. -/
def libraryFunctions (taken : List Text) : List LibraryFunction :=
  firstByKey (fun f => upper f.name.toList) taken LibraryFunction.all

/-- Items for library functions, likewise. -/
def libraryItems (r : Request) (found : List LibraryFunction) : List CompletionItem :=
  (found.filter fun f => r.accepts f.name.toList).map fun f =>
    { label := f.name.toList
      kind := .function
      detail := some f.header.toList
      documentation := some f.doc
      sortText := r.sortText .library f.name.toList
      isSnippet := true
      edit := r.edit (snippet f.name.toList (f.params.map paramName)) }

/-- Items for keywords that no function takes. -/
def keywordItems (r : Request) (taken : List Text) : List CompletionItem :=
  (Keyword.all.filter fun k =>
    !taken.contains k.name.toList && r.accepts k.name.toList).map fun k =>
    { label := k.name.toList
      kind := .keyword
      documentation := some k.doc
      sortText := r.sortText .keyword k.name.toList
      edit := r.edit k.name.toList }

/-- Items for system variables. -/
def systemItems (r : Request) : List CompletionItem :=
  (SystemVariable.all.filter fun v => r.accepts v.name.toList).map fun v =>
    { label := v.name.toList
      kind := .var
      detail := some v.typeName.toList
      documentation := some v.doc
      sortText := r.sortText .system v.name.toList
      edit := r.edit v.name.toList }

/-- The kind under which a symbol is shown. -/
def kindOf : SymbolKind → CompletionKind
  | .record => .record
  | .enumMember => .enumMember
  | .signal => .constant
  | _ => .var

/-- Items for variables. An enumeration value gets its `#` unless that has been typed. -/
def variableItems (r : Request) (hashed : Bool) (table : SymbolTable) (view : WorkspaceView) :
    List CompletionItem :=
  ((firstByKey Symbol.key [] (table.symbols ++ view.symbols.map (·.symbol))).filter fun s =>
    r.accepts s.name).map fun s =>
    { label := s.name
      kind := kindOf s.kind
      detail := some (s.typeName.getD s.kind.label.toList)
      sortText := r.sortText .var s.name
      edit := r.edit (if s.kind = .enumMember && !hashed then '#' :: s.name else s.name) }

/-- Items for everything that has a name. -/
def nameItems (r : Request) (hashed : Bool) (table : SymbolTable) (view : WorkspaceView) :
    List CompletionItem :=
  let routines := routines table view
  let taken := routines.map Routine.key
  let library := libraryFunctions taken
  let taken := taken ++ library.map fun f => upper f.name.toList
  routineItems r routines ++ libraryItems r library ++ keywordItems r taken ++ systemItems r ++
    variableItems r hashed table view

end Completion

/-- The items for a position; none in comments and strings. -/
def complete (text : Text) (p : Position) (view : WorkspaceView) : List CompletionItem :=
  match Place.at? text p with
  | none => []
  | some place =>
    let before := place.before
    if (Code.commentStart before).isSome || Code.inString before (byteLength before) then []
    else
      let table := SymbolTable.collect text
      match LineRule.memberAccess.find? before with
      | some found => Completion.memberItems ⟨p, found.text 2⟩ table view (found.text 1)
      | none =>
        let typed := CursorWord.typedBefore before (byteLength before)
        let hashed := (before.take (before.length - typed.length)).getLast? == some '#'
        Completion.nameItems ⟨p, typed⟩ hashed table view

end KrlWorkbench
