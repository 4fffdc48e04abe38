import KrlWorkbench.Code.Line
import KrlWorkbench.Code.Rule
import KrlWorkbench.Vocabulary.BuiltinType

/-!
# Kinds of line

Every line is blank, a comment, a declaration of some kind, or a use of what is declared.  A
declaration without `DECL` needs a type that is built in or known as a structure, since any two
words would look like one.
-/

namespace KrlWorkbench

open Text

/-- What a line may declare. -/
inductive DeclarationKind where
  | var
  | signal
  | record
  | enumeration
  | routine
  | dataList
  deriving DecidableEq, Repr

/-- What a line is there for. -/
inductive LineKind where
  | blank
  | comment
  | declaration (kind : DeclarationKind)
  | usage
  deriving DecidableEq, Repr

/-- Type and names of a line that declares variables. -/
structure TypedList where
  isGlobal : Bool
  /-- The line says `DECL`. -/
  isExplicit : Bool
  typeName : Text
  list : Text
  listStart : Nat
  deriving DecidableEq, Repr, Inhabited

namespace TypedList

/-- Words in the place of a type that make a line some other declaration. -/
def notTypes : List Text :=
  ["DEF", "DEFFCT", "DEFDAT", "STRUC", "ENUM", "SIGNAL", "INTERRUPT", "DECL"].map (·.toList)

/-- Reads a line of code as a declaration of variables, where `types` are the names of known
structures in upper case. Without `DECL`, `GLOBAL` or `CONST` a list that begins with an equals
sign is an assignment. -/
def ofCode? (types : List Text) (code : Text) : Option TypedList := do
  let found ← LineRule.declaration.find? code
  let typeName := found.text 6
  let list ← found.group? 7
  let isExplicit := found.has 3
  let isGlobal := found.has 1 || found.has 4
  let isConst := found.has 2 || found.has 5
  if notTypes.contains (upper typeName) then none
  else if !isExplicit && !BuiltinType.isBuiltinType typeName &&
      !types.contains (upper typeName) then
    none
  else if !isExplicit && !isConst && !isGlobal && (trimStart list.text).head? == some '=' then none
  else some ⟨isGlobal, isExplicit, typeName, list.text, list.start⟩

end TypedList

namespace LineKind

/-- Whether a line with this code, which is not blank, declares something. -/
def ofCode (types : List Text) (code : Text) : LineKind :=
  if LineRule.routineHeader.holds code || LineRule.functionHeader.holds code then
    .declaration .routine
  else if LineRule.dataListHeader.holds code then .declaration .dataList
  else
    match LineRule.typeDefinition.find? code with
    | some found =>
      if sameName (found.text 3) "ENUM".toList then .declaration .enumeration
      else .declaration .record
    | none =>
      if LineRule.signal.holds code then .declaration .signal
      else if (TypedList.ofCode? types code).isSome then .declaration .var
      else .usage

/-- The kind of a line, where `types` are the names of known structures in upper case. Lines that
begin with an ampersand are attributes of the file and count as comments. -/
def ofLine (types : List Text) (line : Text) : LineKind :=
  let trimmed := trim line
  if trimmed.isEmpty then .blank
  else if trimmed.head? == some ';' || trimmed.head? == some '&' then .comment
  else if allBlank (Code.codePart line) then .comment
  else ofCode types (Code.codePart line)

/-- Whether the line declares or does something. -/
def isCode : LineKind → Bool
  | .declaration _ => true
  | .usage => true
  | _ => false

end LineKind
end KrlWorkbench
