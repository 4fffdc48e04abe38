import KrlWorkbench.Code.ItemList
import KrlWorkbench.Code.LineKind
import KrlWorkbench.Symbol.Basic

/-!
# Collecting declarations

`collect` reads the declarations of a document line by line.  Of several declarations of one
name the first counts, except that a parameter, which its header leaves without a type, takes
type, place and value from the first declaration in the body.
-/

namespace KrlWorkbench

open Text

/-! ## Routine headers -/

/-- Which way a parameter passes its value, from the word after the colon. -/
def Direction.ofText? (word : Text) : Option Direction :=
  let word := upper (trim word)
  if word == "IN".toList then some .input
  else if word == "OUT".toList then some .output
  else none

/-- A parameter's name and the direction behind the last colon. -/
def splitLastColon (raw : Text) : Option (Text × Text) :=
  let back := raw.reverse
  match back.dropWhile (· != ':') with
  | [] => none
  | _ :: name => some (name.reverse, (back.takeWhile (· != ':')).reverse)

/-- A parameter as written, unless it is empty or names nothing. -/
def Param.ofText? (text : Text) : Option Param :=
  let raw := trim text
  let (namePart, direction) :=
    match splitLastColon raw with
    | some (name, word) => (name, Direction.ofText? word)
    | none => (raw, none)
  let name := ListItem.stripIndex (trim namePart)
  if isIdentifier name then some ⟨name, direction, raw⟩ else none

/-- The parameters of a list, without those that name nothing. -/
def Param.ofList (list : Text) : List Param :=
  (ListItem.split list).filterMap fun item => Param.ofText? item.text

namespace Routine

/-- The routine whose parts a header gives. -/
def ofParts (text : Text) (line : Nat) (isGlobal : Bool) (returnType : Option Text)
    (name : Capture) (params : Text) : Routine where
  symbol := {
    name := name.text
    kind := .function
    typeName := returnType
    range := some (text.span line name.start (byteLength name.text))
    isGlobal := isGlobal
    value := none }
  params := Param.ofList params
  returnType := returnType
  headerLine := line

/-- Reads a line of code of a document as the header of a routine. -/
def ofHeader? (text : Text) (code : Text) (line : Nat) : Option Routine :=
  match LineRule.functionHeader.find? code with
  | some found =>
    (found.group? 3).map fun name =>
      ofParts text line (found.has 1) (some (found.text 2)) name (found.text 4)
  | none => do
    let found ← LineRule.routineHeader.find? code
    let name ← found.group? 2
    return ofParts text line (found.has 1) none name (found.text 3)

end Routine

/-! ## Structures and enumerations -/

namespace TypeDefinition

/-- Whether a match of the rule for type definitions is an enumeration. -/
def isEnumeration (found : Match) : Bool :=
  sameName (found.text 3) "ENUM".toList

/-- The keys of the types that the lines define. -/
def keysOf (lines : List Text) : List Text :=
  lines.filterMap fun line =>
    (LineRule.typeDefinition.find? (Code.codePart line)).map fun found => upper (found.text 4)

/-- The member names in a list of fields. Fields of one type follow its name, so in a structure
type names are left out. -/
def membersOf (known : List Text) (isEnum : Bool) (list : Text) : List Text :=
  (ListItem.split list).flatMap fun item =>
    (blankSeparated item.text).filterMap fun word =>
      let name := ListItem.stripIndex word
      if !isIdentifier name then none
      else if !isEnum && (BuiltinType.isBuiltinType name || known.contains (upper name)) then none
      else some name

/-- The type that a line defines. -/
def ofLine? (known : List Text) (line : Text) : Option TypeDefinition :=
  (LineRule.typeDefinition.find? (Code.codePart line)).map fun found =>
    let isEnum := isEnumeration found
    ⟨found.text 4, membersOf known isEnum (found.text 5), isEnum⟩

/-- Adds a type, unless its name is taken. -/
def addFirst (defs : List TypeDefinition) (d : TypeDefinition) : List TypeDefinition :=
  if defs.any fun e => sameName e.name d.name then defs else defs ++ [d]

/-- The types a document defines, where `known` are keys of types defined elsewhere. -/
def collect (text : Text) (known : List Text) : List TypeDefinition :=
  let lines := text.lines
  let known := known ++ keysOf lines
  (lines.filterMap (ofLine? known)).foldl addFirst []

end TypeDefinition

/-! ## Variables -/

namespace Symbol

/-- The parameters of a header, which have no type yet. -/
def ofParams (r : Routine) : List Symbol :=
  r.params.map fun p => ⟨p.name, .parameter, none, none, false, none⟩

/-- The structure or the enumeration values a type definition declares. -/
def ofTypeDefinition (text : Text) (line : Nat) (found : Match) : List Symbol :=
  let isGlobal := found.has 1 || found.has 2
  match found.group? 4 with
  | none => []
  | some name =>
    if TypeDefinition.isEnumeration found then
      ((ListItem.split (found.text 5)).map fun item => trim item.text).filterMap fun member =>
        if isIdentifier member then some ⟨member, .enumMember, some name.text, none, isGlobal, none⟩
        else none
    else
      [⟨name.text, .record, none, some (text.span line name.start (byteLength name.text)),
        isGlobal, some (trim (found.text 5))⟩]

def ofSignal (text : Text) (line : Nat) (found : Match) : List Symbol :=
  match found.group? 2 with
  | none => []
  | some name =>
    if isIdentifier name.text then
      [⟨name.text, .signal, none, some (text.span line name.start (byteLength name.text)),
        found.has 1, (some (trim (found.text 3))).filter (!·.isEmpty)⟩]
    else []

/-- The variables a line declares. -/
def ofTypedList (text : Text) (line : Nat) (parts : TypedList) : List Symbol :=
  (ListItem.split parts.list).filterMap fun item =>
    let name := item.name
    if isIdentifier name then
      some ⟨name, .var, some parts.typeName,
        some (text.span line (parts.listStart + item.nameOffset) (byteLength name)),
        parts.isGlobal, item.value⟩
    else none

/-- Everything but routines that a line of code declares, where `types` are the keys of known
structures. -/
def ofLine (text : Text) (types : List Text) (line : Nat) (code : Text) : List Symbol :=
  match Routine.ofHeader? text code line with
  | some r => ofParams r
  | none =>
    match LineRule.typeDefinition.find? code with
    | some found => ofTypeDefinition text line found
    | none =>
      match LineRule.signal.find? code with
      | some found => ofSignal text line found
      | none =>
        match TypedList.ofCode? types code with
        | some parts => ofTypedList text line parts
        | none => []

/-- Gives an untyped parameter the type, place and value of a later declaration. -/
def refine (old new : Symbol) : Symbol :=
  if old.kind = .parameter && old.typeName.isNone then
    { old with typeName := new.typeName, range := new.range, value := new.value }
  else old

/-- Adds a declaration: the first of a name counts, later ones at most refine it. -/
def add (new : Symbol) : List Symbol → List Symbol
  | [] => [new]
  | old :: rest => if old.key == new.key then refine old new :: rest else old :: add new rest

end Symbol

namespace Routine

/-- Adds a routine, unless its name is taken. -/
def addFirst (routines : List Routine) (r : Routine) : List Routine :=
  if routines.any fun old => old.key == r.key then routines else routines ++ [r]

end Routine

namespace SymbolTable

/-- The code of each line with its number; lines without code are left out. -/
def codeLines (text : Text) : List (Nat × Text) :=
  (text.lines.zipIdx.map fun (line, i) => (i, Code.codePart line)).filter fun (_, code) =>
    !allBlank code

/-- The table of a document. -/
def collect (text : Text) : SymbolTable :=
  let code := codeLines text
  let types := TypeDefinition.keysOf text.lines
  { symbols :=
      (code.flatMap fun (line, code) => Symbol.ofLine text types line code).foldl
        (fun found s => Symbol.add s found) []
    routines :=
      (code.filterMap fun (line, code) => Routine.ofHeader? text code line).foldl
        Routine.addFirst []
    types := TypeDefinition.collect text [] }

end SymbolTable
end KrlWorkbench
