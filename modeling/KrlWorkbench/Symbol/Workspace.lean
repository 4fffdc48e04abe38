import KrlWorkbench.Uri.Map
import KrlWorkbench.Symbol.Basic
import KrlWorkbench.Vocabulary.BuiltinType
import KrlWorkbench.Vocabulary.SystemVariable

/-!
# The workspace view

The symbols of all files of a workspace, seen as one.  Files count in the order of their URIs, so
the view depends only on which table belongs to which file.  Routines and structures of one name
are taken from the first file; variables are all kept, since a global one is preferred over those
before it.

The type of a variable and the members of a type are looked up in the document first, then in the
workspace, then in what the controller has built in.
-/

namespace KrlWorkbench

open Text

/-- A range of a file. -/
structure Location where
  uri : Uri
  range : Range
  deriving DecidableEq, Repr, Inhabited

/-- A file and its text, from a buffer or from disk. -/
structure SourceFile where
  uri : Uri
  text : Text
  deriving DecidableEq, Repr, Inhabited

/-- A symbol and its file. -/
structure LocatedSymbol where
  uri : Uri
  symbol : Symbol
  deriving DecidableEq, Repr, Inhabited

/-- A routine and its file. -/
structure LocatedRoutine where
  uri : Uri
  routine : Routine
  deriving DecidableEq, Repr, Inhabited

/-- What the files of a workspace declare together. -/
structure WorkspaceView where
  symbols : List LocatedSymbol := []
  routines : List LocatedRoutine := []
  /-- Structures and enumerations, one for each key. -/
  types : List TypeDefinition := []
  deriving DecidableEq, Repr, Inhabited

namespace WorkspaceView

/-- Files in the order of their URIs, so that it is settled which comes first. -/
def sortFiles (files : List (Uri × SymbolTable)) : List (Uri × SymbolTable) :=
  files.mergeSort fun a b => a.1.le b.1

def addRoutine (routines : List LocatedRoutine) (r : LocatedRoutine) : List LocatedRoutine :=
  if routines.any fun old => old.routine.key == r.routine.key then routines else routines ++ [r]

def addType (types : List TypeDefinition) (d : TypeDefinition) : List TypeDefinition :=
  if types.any fun old => old.key == d.key then types else types ++ [d]

/-- Leaves out of a structure's members the names of types, which a file that does not define
them takes for members. -/
def pruneMembers (keys : List Text) (d : TypeDefinition) : TypeDefinition :=
  if d.isEnum then d
  else { d with members := d.members.filter fun m => !keys.contains (upper m) }

/-- The view of some files, whatever order they come in. -/
def build (files : List (Uri × SymbolTable)) : WorkspaceView :=
  let files := sortFiles files
  let types := (files.flatMap fun f => f.2.types).foldl addType []
  { symbols := files.flatMap fun f => f.2.symbols.map fun s => ⟨f.1, s⟩
    routines := (files.flatMap fun f => f.2.routines.map fun r => ⟨f.1, r⟩).foldl addRoutine []
    types := types.map (pruneMembers (types.map (·.key))) }

def typeKeys (view : WorkspaceView) : List Text :=
  view.types.map (·.key)

def routineKeys (view : WorkspaceView) : List Text :=
  view.routines.map fun r => r.routine.key

/-- The keys of everything declared, with repetitions. -/
def declaredKeys (view : WorkspaceView) : List Text :=
  view.routineKeys ++ view.symbols.map fun s => s.symbol.key

/-- The routine with a name, of the first file that has one. -/
def routine? (view : WorkspaceView) (name : Text) : Option LocatedRoutine :=
  view.routines.find? fun r => sameName r.routine.name name

/-- The variable with a name, a global one before all others. -/
def symbol? (view : WorkspaceView) (name : Text) : Option LocatedSymbol :=
  let found := view.symbols.filter fun s => sameName s.symbol.name name
  (found.find? fun s => s.symbol.isGlobal).or found.head?

def type? (view : WorkspaceView) (name : Text) : Option TypeDefinition :=
  view.types.find? fun d => d.key == upper name

/-- The members of a structure, defined in the workspace or built in. -/
def members? (view : WorkspaceView) (typeName : Text) : Option (List Text) :=
  match view.type? typeName with
  | some d => some d.members
  | none => (BuiltinType.members? typeName).map fun members => members.map (·.toList)

/-- Whether a type has members. -/
def isStructured (view : WorkspaceView) (typeName : Text) : Bool :=
  (view.type? typeName).isSome || (BuiltinType.members? typeName).isSome

/-- The key of the structured type of each variable, for the first declaration that has one. -/
def variableTypes (view : WorkspaceView) : List (Text × Text) :=
  (view.symbols.filterMap fun s =>
    match s.symbol.typeName with
    | some type => if view.isStructured type then some (s.symbol.key, upper type) else none
    | none => none).foldl
      (fun types entry => if types.any (·.1 == entry.1) then types else types ++ [entry]) []

/-- The key of the structured type of a variable. -/
def variableType? (view : WorkspaceView) (name : Text) : Option Text :=
  view.variableTypes.lookup (upper name)

end WorkspaceView

/-! ## Members of a variable -/

/-- The type of the variable in front of a point. -/
def ownerType? (table : SymbolTable) (view : WorkspaceView) (owner : Text) : Option Text :=
  ((table.symbol? owner).bind (·.typeName)).or
    ((view.variableType? owner).or
      ((SystemVariable.find? owner).map fun v => v.typeName.toList))

/-- The type a document defines under a name. -/
def SymbolTable.type? (table : SymbolTable) (name : Text) : Option TypeDefinition :=
  table.types.find? fun d => sameName d.name name

/-- The members of a type, as the document declares it or else the workspace. -/
def membersOfType? (table : SymbolTable) (view : WorkspaceView) (typeName : Text) :
    Option (List Text) :=
  ((table.type? typeName).map (·.members)).or (view.members? typeName)

/-! ## Files and their view -/

/-- The files of a workspace and the view that is published for them. -/
structure SymbolStore where
  files : UriMap SymbolTable := .empty
  view : WorkspaceView := {}
  deriving DecidableEq, Repr, Inhabited

namespace SymbolStore

def table? (store : SymbolStore) (uri : Uri) : Option SymbolTable :=
  store.files.get? uri

/-- The store of some files, with its view. -/
def ofFiles (files : UriMap SymbolTable) : SymbolStore :=
  ⟨files, WorkspaceView.build files.entries⟩

/-- Takes the table of a file in the place of the old one. -/
def replace (store : SymbolStore) (uri : Uri) (table : SymbolTable) : SymbolStore :=
  ofFiles (store.files.insert uri table)

/-- Forgets a file; nothing is published anew when it was not known. -/
def erase (store : SymbolStore) (uri : Uri) : SymbolStore :=
  if store.files.contains uri then ofFiles (store.files.erase uri) else store

def clear (_ : SymbolStore) : SymbolStore :=
  {}

end SymbolStore
end KrlWorkbench
