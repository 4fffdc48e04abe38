import KrlWorkbench.Finding.Report
import KrlWorkbench.Scope.Window

/-!
# Quick fixes

Edits that mend a diagnostic.  The code of a diagnostic and its data decide what is offered, never
its message, so fixes work in every language.
-/

namespace KrlWorkbench

open Text

/-- An edit offered for a diagnostic. -/
structure QuickFix where
  title : String
  diagnostic : Diagnostic
  edit : TextEdit
  isPreferred : Bool
  deriving Inhabited

namespace QuickFix

/-- The place of the type in the declaration of a variable that a text makes. -/
def typeRange? (text : Text) (name : Text) : Option Range := do
  let symbol ← (SymbolTable.collect text).symbol? name
  let range ← symbol.range
  let typeName ← symbol.typeName
  let line ← text.lines[range.start.line]?
  let found ← (Pattern.wholeWord typeName).find? (Code.codePart line)
  return text.span range.start.line found.whole.start (byteLength found.whole.text)

/-- Fixes for an integer variable that gets a decimal value: change its type, where the text
declares it, or drop the fraction. -/
def forShouldBeReal (text : Text) (d : Diagnostic) : List QuickFix :=
  match d.dataText? "varName", d.dataText? "value" with
  | some name, some value =>
    let retype :=
      match typeRange? text name with
      | some range =>
        [⟨s!"Change type of '{String.ofList name}' to REAL", d, ⟨range, "REAL".toList⟩, true⟩]
      | none => []
    let truncate :=
      match Number.read? value with
      | some x =>
        let whole := toString (Number.Binary.ofFloat x).toInt64
        [⟨s!"Use integer value {whole}", d, ⟨d.range, whole.toList⟩, false⟩]
      | none => []
    retype ++ truncate
  | _, _ => []

/-- The fix for a declaration in a public data list that is not global. -/
def forMissingGlobal (d : Diagnostic) : List QuickFix :=
  [⟨"Add GLOBAL", d, ⟨.point d.range.start, "GLOBAL ".toList⟩, true⟩]

/-- The first header of a data list that is not public, with its line. -/
def privateList? (lines : List Text) : Option (Nat × Capture) :=
  lines.zipIdx.findSome? fun (line, number) =>
    match LineRule.dataListHeader.find? (Code.codePart line) with
    | some found => if found.has 2 then none else (found.group? 1).map fun name => (number, name)
    | none => none

/-- The place of the `GLOBAL` that a diagnostic points at, with the blanks behind it. -/
def globalRange? (text : Text) (d : Diagnostic) : Option Range := do
  let line ← text.lines[d.range.start.line]?
  let column ← text.columnOf d.range.start
  let found ← LineRule.globalKeyword.find? (dropBytes column line)
  if found.whole.start = 0 then
    return text.span d.range.start.line column (byteLength found.whole.text)
  else none

/-- Fixes for a global declaration in a private data list: take `GLOBAL` away or make the list
public. -/
def forGlobalNotPublic (text : Text) (d : Diagnostic) : List QuickFix :=
  let remove :=
    match globalRange? text d with
    | some range => [⟨"Remove GLOBAL", d, ⟨range, []⟩, false⟩]
    | none => []
  let publish :=
    match privateList? text.lines with
    | some (line, name) =>
      [⟨s!"Mark DEFDAT '{String.ofList name.text}' PUBLIC", d,
        ⟨text.span line name.stop 0, " PUBLIC".toList⟩, true⟩]
    | none => []
  remove ++ publish

/-- The fix for an undeclared variable: declare it after the header of the block around it, with
the indentation of its use, or at the top of the file. -/
def forUndefined (text : Text) (d : Diagnostic) : List QuickFix :=
  let lines := text.lines
  let number := d.range.start.line
  match d.dataText? "varName", lines[number]? with
  | some name, some line =>
    let (target, indent) :=
      match Window.around? lines number with
      | some window => (window.start + 1, line.takeWhile isBlank)
      | none => (0, [])
    let declaration := indent ++ "DECL INT ".toList ++ name
    let edit : TextEdit :=
      if target < lines.length then ⟨text.span target 0 0, declaration ++ ['\n']⟩
      else ⟨.point text.wholeRange.stop, '\n' :: declaration⟩
    [⟨s!"Declare '{String.ofList name}' as INT", d, edit, true⟩]
  | _, _ => []

/-- The fix for a speed that is too high: the limit instead. -/
def forSpeed (d : Diagnostic) : List QuickFix :=
  match d.dataNumber? "limit" with
  | some limit =>
    let limit := Number.display limit
    [⟨s!"Clamp to {limit}", d, ⟨d.range, limit.toList⟩, true⟩]
  | none => []

/-- The fix for a statement that is never reached: take its line away. -/
def forDeadCode (text : Text) (d : Diagnostic) : List QuickFix :=
  let line := d.range.start.line
  let stop : Position := if line + 1 < text.lines.length then ⟨line + 1, 0⟩ else d.range.stop
  [⟨"Remove unreachable statement", d, ⟨⟨⟨line, 0⟩, stop⟩, []⟩, false⟩]

/-- The fixes for a diagnostic, by its code. -/
def forDiagnostic (text : Text) (d : Diagnostic) : List QuickFix :=
  match d.code? with
  | some .shouldBeReal => forShouldBeReal text d
  | some .missingGlobal => forMissingGlobal d
  | some .globalNotPublic => forGlobalNotPublic text d
  | some .undefinedVariable => forUndefined text d
  | some .unsafePathSpeed => forSpeed d
  | some .unsafeAxisSpeed => forSpeed d
  | some .deadCode => forDeadCode text d
  | _ => []

/-- The fixes for some diagnostics, in their order. -/
def offer (text : Text) (diagnostics : List Diagnostic) : List QuickFix :=
  diagnostics.flatMap (forDiagnostic text)

end QuickFix
end KrlWorkbench
