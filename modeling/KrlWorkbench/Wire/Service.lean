import KrlWorkbench.Editing.QuickFix
import KrlWorkbench.Service.CallGraph
import KrlWorkbench.Service.CallHelp
import KrlWorkbench.Service.Completion
import KrlWorkbench.Service.Fold
import KrlWorkbench.Service.Occurrence
import KrlWorkbench.Service.Hover
import KrlWorkbench.Service.Outline

/-!
# Places and diagnostics as JSON

The JSON forms in which an editor and this library exchange positions, ranges and diagnostics.
Parts that are not set are left out.
-/

namespace KrlWorkbench.Wire

def position (p : Position) : Json :=
  .obj [("line", .ofNat p.line), ("character", .ofNat p.character)]

def range (r : Range) : Json :=
  .obj [("start", position r.start), ("end", position r.stop)]

def uri (u : Uri) : Json :=
  .ofText u.text

def location (u : Uri) (r : Range) : Json :=
  .obj [("uri", uri u), ("range", range r)]

def diagnostic (d : Diagnostic) : Json :=
  .obj ([("range", range d.range)]
    ++ Json.entry? "severity" .int d.severity
    ++ Json.entry? "code" (fun code =>
        match code with
        | .text code => .str code
        | .number code => .int code) d.code
    ++ Json.entry? "codeDescription" id d.codeDescription
    ++ Json.entry? "source" .str d.source
    ++ [("message", .str d.message)]
    ++ Json.entry? "relatedInformation" id d.relatedInformation
    ++ Json.entry? "tags" (Json.ofList .int) d.tags
    ++ Json.entry? "data" id d.data)

/-! ## Reading -/

def nat? : Json → Option Nat
  | .int n => if 0 ≤ n then some n.toNat else none
  | _ => none

def position? (j : Json) : Option Position := do
  return ⟨← (← j.get? "line") |> nat?, ← (← j.get? "character") |> nat?⟩

def range? (j : Json) : Option Range := do
  return ⟨← (← j.get? "start") |> position?, ← (← j.get? "end") |> position?⟩

/-- An entry of an object that is there and not null. -/
def present? (j : Json) (key : String) : Option Json :=
  match j.get? key with
  | some .null => none
  | found => found

def code? : Json → Option DiagnosticCode
  | .str code => some (.text code)
  | .int code => some (.number code)
  | _ => none

def diagnostic? (j : Json) : Option Diagnostic := do
  let range ← (← j.get? "range") |> range?
  let message ← (← j.get? "message").str?
  return {
    range := range
    severity := (present? j "severity").bind (·.int?)
    code := (present? j "code").bind code?
    codeDescription := present? j "codeDescription"
    source := (present? j "source").bind (·.str?)
    message := message
    relatedInformation := present? j "relatedInformation"
    tags := ((present? j "tags").bind (·.arr?)).map fun tags => tags.filterMap (·.int?)
    data := present? j "data" }

/-! ## Answers as JSON

The JSON forms of what the services answer.  Parts that are not set are left out. -/

def textEdit (e : TextEdit) : Json :=
  .obj [("range", range e.range), ("newText", .ofText e.newText)]

def fileEdits (edits : List (Uri × List TextEdit)) : Json :=
  .obj (edits.map fun (u, edits) => (String.ofList u.text, .ofList textEdit edits))

def quickFix (u : Uri) (fix : QuickFix) : Json :=
  .obj [("title", .str fix.title), ("kind", .str "quickfix"),
    ("diagnostics", .arr [diagnostic fix.diagnostic]),
    ("edit", .obj [("changes", fileEdits [(u, [fix.edit])])]),
    ("isPreferred", .bool fix.isPreferred)]

/-- The number of a kind of completion item. -/
def completionKind : CompletionKind → Nat
  | .function => 3
  | .field => 5
  | .var => 6
  | .keyword => 14
  | .enumMember => 20
  | .constant => 21
  | .record => 22

def completionItem (item : CompletionItem) : Json :=
  .obj ([("label", .ofText item.label), ("kind", .ofNat (completionKind item.kind))]
    ++ Json.entry? "detail" .ofText item.detail
    ++ Json.entry? "documentation" .str item.documentation
    ++ [("sortText", .ofText item.sortText)]
    ++ (if item.isSnippet then [("insertTextFormat", .ofNat 2)] else [])
    ++ [("textEdit", textEdit item.edit)])

def hover (h : Hover) : Json :=
  .obj [("contents", .obj [("kind", .str "markdown"), ("value", .ofText h.markdown)]),
    ("range", range h.range)]

def callHelp (h : CallHelp) : Json :=
  .obj [("signatures", .arr [.obj ([("label", .ofText h.label)]
      ++ Json.entry? "documentation" .str h.documentation
      ++ [("parameters", .ofList (fun p => .obj [("label", .ofText p)]) h.params),
        ("activeParameter", .ofNat h.active)])]),
    ("activeSignature", .ofNat 0), ("activeParameter", .ofNat h.active)]

def place (l : Location) : Json :=
  location l.uri l.range

def highlightKind : HighlightKind → Nat
  | .text => 1
  | .read => 2
  | .write => 3

def highlight (h : Highlight) : Json :=
  .obj [("range", range h.range), ("kind", .ofNat (highlightKind h.kind))]

def fold (f : FoldRange) : Json :=
  .obj ([("startLine", .ofNat f.start), ("endLine", .ofNat f.stop)]
    ++ (if f.isRegion then [("kind", .str "region")] else [])
    ++ Json.entry? "collapsedText" .ofText f.label)

/-- The number of a kind of outline entry. -/
def outlineKind : OutlineKind → Nat
  | .dataList => 2
  | .routine => 12
  | .var => 13
  | .enumMember => 22
  | .record => 23
  | .signal => 24

/-- An outline entry with the encoded ones below it. -/
def outlineEntry (e : OutlineEntry) (below : List Json) : Json :=
  .obj ([("name", .ofText e.name)]
    ++ Json.entry? "detail" .ofText e.detail
    ++ [("kind", .ofNat (outlineKind e.kind)), ("range", range e.range),
      ("selectionRange", range e.selection)]
    ++ (if below.isEmpty then [] else [("children", .arr below)]))

def outlineNode (node : OutlineNode) : Json :=
  outlineEntry node.entry (node.children.map fun e => outlineEntry e [])

def workspaceEntry (e : WorkspaceEntry) : Json :=
  .obj ([("name", .ofText e.name), ("kind", .ofNat (outlineKind e.kind)),
      ("location", place e.location)]
    ++ Json.entry? "containerName" .ofText e.containerName)

/-- The summary of a routine, shown as a command that does nothing. -/
def routineSummary (s : RoutineSummary) : Json :=
  .obj [("range", range s.range),
    ("command", .obj [("title", .str s.title), ("command", .str "")])]

def callItem (item : CallItem) : Json :=
  .obj [("name", .ofText item.name), ("kind", .ofNat (outlineKind .routine)),
    ("detail", .ofText item.detail), ("uri", uri item.uri), ("range", range item.range),
    ("selectionRange", range item.selection)]

/-- Calls between two routines, with the other end under a key. -/
def callEdge (key : String) (edge : CallEdge) : Json :=
  .obj [(key, callItem edge.item), ("fromRanges", .ofList range edge.ranges)]

end KrlWorkbench.Wire
