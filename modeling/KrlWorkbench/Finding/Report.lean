import KrlWorkbench.Finding.Balance
import KrlWorkbench.Finding.Declaration
import KrlWorkbench.Finding.Flow

/-!
# All findings of a document

The checks are independent of each other; a report lists their findings check by check.
-/

namespace KrlWorkbench

open Text

namespace Finding

/-! ## Types and characters -/

def hasType (ctx : Context) (name : Text) (type : String) : Bool :=
  (ctx.variableType? name).any fun found => sameName found type.toList

/-- The finding for a branch on a real variable or a decimal value for an integer. -/
def typeIn (ctx : Context) (line : SourceLine) : List Finding :=
  match (LineRule.switchSubject.find? line.code).bind (·.group? 1) with
  | some subject =>
    if hasType ctx subject.text "REAL" then
      [⟨ctx.span line.number subject.start (byteLength subject.text), .realInSwitch subject.text⟩]
    else []
  | none =>
    match LineRule.literalAssignment.find? line.code with
    | none => []
    | some found =>
      match found.group? 1, found.group? 2 with
      | some name, some value =>
        if hasType ctx name.text "INT" then
          [⟨ctx.span line.number value.start (byteLength value.text),
            .shouldBeReal name.text value.text⟩]
        else []
      | _, _ => []

/-- Uses of a variable that do not fit its type. -/
def typeUses (ctx : Context) : List Finding :=
  ctx.lines.flatMap (typeIn ctx)

/-- The runs of characters outside ASCII; `run` is the one at hand, last character first, and
`offset` the byte offset of what follows. -/
def nonAsciiRuns (run : Text) (offset : Nat) : Text → List Capture
  | [] => if run.isEmpty then [] else [⟨offset - byteLength run, run.reverse⟩]
  | c :: rest =>
    if !isAscii c then nonAsciiRuns (c :: run) (offset + c.utf8Size) rest
    else if run.isEmpty then nonAsciiRuns [] (offset + c.utf8Size) rest
    else ⟨offset - byteLength run, run.reverse⟩ :: nonAsciiRuns [] (offset + c.utf8Size) rest

/-- Runs of characters outside ASCII, comments and strings included. -/
def nonAscii (ctx : Context) : List Finding :=
  ctx.lines.flatMap fun line =>
    (nonAsciiRuns [] 0 line.raw).map fun run =>
      ⟨ctx.span line.number run.start (byteLength run.text), .nonAscii run.text⟩

/-! ## The report -/

/-- What a report is to hold, and in which language. -/
structure Options where
  locale : Locale := .english
  nonAsciiWarnings : Bool := true
  deriving DecidableEq, Repr, Inhabited

/-- All findings of a document. The controller's own files use names that no program declares, so
they are not searched for undeclared ones. -/
def report (text : Text) (isSystemFile : Bool) (view : WorkspaceView) (options : Options) :
    List Finding :=
  let ctx := Context.ofText text view
  (if isSystemFile then [] else withoutRepeats options.locale [] (undeclared ctx)) ++
    visibility ctx ++ names ctx ++ balance ctx ++ duplicates ctx ++ dead ctx ++ emptyBlocks ctx ++
    stops ctx ++ typeUses ctx ++ speeds ctx ++ motions ctx ++
    (if options.nonAsciiWarnings then nonAscii ctx else [])

end Finding

/-! ## Diagnostics

The form in which findings are published to a client, and in which a client hands them back when
it asks for fixes.  A client may also hand in diagnostics of its own making. -/

/-- Clients may number their codes; ours are texts. -/
inductive DiagnosticCode where
  | text (code : String)
  | number (code : Int)
  deriving DecidableEq, Repr, Inhabited

/-- A published finding. -/
structure Diagnostic where
  range : Range
  severity : Option Int := none
  code : Option DiagnosticCode := none
  /-- Where the code is explained. -/
  codeDescription : Option Json := none
  source : Option String := none
  message : String
  relatedInformation : Option Json := none
  /-- One for code that is unnecessary, two for deprecated code. -/
  tags : Option (List Int) := none
  data : Option Json := none
  deriving Inhabited

namespace Diagnostic

/-- The name under which findings are published. -/
def publisher : String := "krl"

/-- The finding as it is published, its message in a language. -/
def ofFinding (locale : Locale) (f : Finding) : Diagnostic where
  range := f.range
  severity := some f.cause.severity.number
  code := some (.text f.cause.code.text)
  source := some publisher
  message := f.cause.message locale
  tags := if f.cause.isUnnecessary then some [1] else none
  data := f.cause.data

/-- The kind of finding a diagnostic reports, if its code is one of ours. -/
def code? (d : Diagnostic) : Option FindingCode :=
  match d.code with
  | some (.text code) => FindingCode.ofText? code
  | _ => none

/-- A text in the data that came with a diagnostic. -/
def dataText? (d : Diagnostic) (key : String) : Option Text :=
  ((d.data.bind (·.get? key)).bind (·.str?)).map (·.toList)

def dataNumber? (d : Diagnostic) (key : String) : Option Float :=
  (d.data.bind (·.get? key)).bind (·.float?)

end Diagnostic

/-- The diagnostics of a document. -/
def diagnose (text : Text) (isSystemFile : Bool) (view : WorkspaceView)
    (options : Finding.Options) : List Diagnostic :=
  (Finding.report text isSystemFile view options).map (Diagnostic.ofFinding options.locale)

end KrlWorkbench
