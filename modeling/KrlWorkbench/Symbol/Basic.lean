import KrlWorkbench.Text.Document

/-!
# Symbols

What a program declares: variables, signals, parameters, enumeration values, structures and
routines.  Names are compared by their `key`, the name in upper case.
-/

namespace KrlWorkbench

/-- What a name may stand for. -/
inductive SymbolKind where
  | var
  | function
  | record
  | enumMember
  | signal
  | parameter
  deriving DecidableEq, Repr, Inhabited

def SymbolKind.label : SymbolKind → String
  | .var => "Variable"
  | .function => "Function"
  | .record => "Struct"
  | .enumMember => "Enum member"
  | .signal => "Signal"
  | .parameter => "Parameter"

/-- A declared name. -/
structure Symbol where
  name : Text
  kind : SymbolKind
  typeName : Option Text
  /-- Where the name stands, if the declaration gives it a place. -/
  range : Option Range
  /-- Declared `GLOBAL`, so that other modules see it. -/
  isGlobal : Bool
  value : Option Text
  deriving DecidableEq, Repr, Inhabited

/-- The name in the case in which names are compared. -/
def Symbol.key (s : Symbol) : Text :=
  Text.upper s.name

/-- Which way a parameter passes its value. -/
inductive Direction where
  | input
  | output
  deriving DecidableEq, Repr, Inhabited

/-- A parameter, by name and as it is written. -/
structure Param where
  name : Text
  direction : Option Direction
  raw : Text
  deriving DecidableEq, Repr, Inhabited

/-- A routine, by its header. -/
structure Routine where
  symbol : Symbol
  params : List Param
  returnType : Option Text
  headerLine : Nat
  deriving DecidableEq, Repr, Inhabited

namespace Routine

def name (r : Routine) : Text :=
  r.symbol.name

def key (r : Routine) : Text :=
  r.symbol.key

def paramList (r : Routine) : Text :=
  (", ".toList).intercalate (r.params.map (·.raw))

/-- The header line, in a uniform layout. -/
def label (r : Routine) : Text :=
  let lead := if r.symbol.isGlobal then "GLOBAL ".toList else []
  let head :=
    match r.returnType with
    | some type => "DEFFCT ".toList ++ type ++ [' ']
    | none => "DEF ".toList
  lead ++ head ++ r.name ++ ['('] ++ r.paramList ++ [')']

end Routine

/-- A structure or an enumeration. -/
structure TypeDefinition where
  name : Text
  members : List Text
  isEnum : Bool
  deriving DecidableEq, Repr, Inhabited

def TypeDefinition.key (d : TypeDefinition) : Text :=
  Text.upper d.name

/-- Everything that a document declares. -/
structure SymbolTable where
  symbols : List Symbol
  routines : List Routine
  types : List TypeDefinition
  deriving DecidableEq, Repr, Inhabited

namespace SymbolTable

/-- The variable, parameter, signal, structure or enumeration value with a name. -/
def symbol? (table : SymbolTable) (name : Text) : Option Symbol :=
  table.symbols.find? fun s => Text.sameName s.name name

def routine? (table : SymbolTable) (name : Text) : Option Routine :=
  table.routines.find? fun r => Text.sameName r.name name

/-- The keys of everything declared, with repetitions. -/
def declaredKeys (table : SymbolTable) : List Text :=
  table.symbols.map (·.key) ++ table.routines.map (·.key) ++ table.types.map (·.key)

end SymbolTable
end KrlWorkbench
