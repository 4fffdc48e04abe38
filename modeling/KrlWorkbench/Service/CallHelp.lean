import KrlWorkbench.Code.CursorWord
import KrlWorkbench.Symbol.Collect
import KrlWorkbench.Symbol.Workspace
import KrlWorkbench.Vocabulary.Keyword
import KrlWorkbench.Vocabulary.LibraryFunction

/-!
# Help with a call

The parameters of the routine whose argument list is being typed, and which of them is at hand.
The call is the one whose parenthesis is still open at the position; strings before it are blanked
out, so what they hold does not count.
-/

namespace KrlWorkbench

open Text

/-- The header of the routine being called. -/
structure CallHelp where
  label : Text
  params : List Text
  documentation : Option String
  /-- Number of the parameter at hand. -/
  active : Nat
  deriving DecidableEq, Repr, Inhabited

/-- Why there is no answer at all. -/
inductive CallHelpError where
  /-- The name of the routine directly follows a character outside ASCII, in which no byte offset
  one further on is a boundary. -/
  | insideCharacter
  deriving DecidableEq, Repr

namespace CallHelp

/-- What precedes the innermost open parenthesis of a text that is given last character first,
also last character first. -/
def beforeOpen (depth : Nat) : Text → Option Text
  | [] => none
  | c :: rest =>
    if c == ')' then beforeOpen (depth + 1) rest
    else if c == '(' then
      match depth with
      | 0 => some rest
      | depth + 1 => beforeOpen depth rest
    else beforeOpen depth rest

/-- The number of commas outside all brackets, at nesting depth `depth` of the text. -/
def commas (depth : Int) : Text → Nat
  | [] => 0
  | c :: rest =>
    if c == '(' || c == '[' || c == '\x7b' then commas (depth + 1) rest
    else if c == ')' || c == ']' || c == '\x7d' then commas (depth - 1) rest
    else if c == ',' && depth == 0 then commas depth rest + 1
    else commas depth rest

/-- The name at the end of a text that is given last character first. -/
def nameBefore (back : Text) : Except CallHelpError Text :=
  let back := back.dropWhile isBlank
  match back.dropWhile isNameChar with
  | c :: _ => if isAscii c then .ok (back.takeWhile isNameChar).reverse else .error .insideCharacter
  | [] => .ok back.reverse

/-- Help for a routine of the document, of the workspace or of the library, in this order. -/
def ofName? (table : SymbolTable) (view : WorkspaceView) (name : Text) (active : Nat) :
    Option CallHelp :=
  if name.isEmpty || Keyword.isKeyword name then none
  else
    match (table.routine? name).or ((view.routine? name).map (·.routine)) with
    | some r => some ⟨r.label, r.params.map (·.raw), none, active⟩
    | none =>
      (LibraryFunction.find? name).map fun f =>
        ⟨f.header.toList, f.params.map (·.toList), some f.doc, active⟩

end CallHelp

/-- Help for the innermost call that is open at a position. -/
def callHelp (text : Text) (p : Position) (view : WorkspaceView) :
    Except CallHelpError (Option CallHelp) :=
  match Place.at? text p with
  | none => .ok none
  | some place =>
    let before := place.before
    if (Code.commentStart before).isSome then .ok none
    else
      let code := Code.mask before
      match CallHelp.beforeOpen 0 code.reverse with
      | none => .ok none
      | some back => do
        let name ← CallHelp.nameBefore back
        return CallHelp.ofName? (SymbolTable.collect text) view name
          (CallHelp.commas 0 (code.drop (back.length + 1)))

end KrlWorkbench
