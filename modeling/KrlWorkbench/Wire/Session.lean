import KrlWorkbench.Session.Timeline
import KrlWorkbench.Wire.Service

/-!
# Sessions as JSON

The JSON forms of the answers and notices of a session, and of what it offers when it starts.
-/

namespace KrlWorkbench.Wire

/-- The code of an error about the parameters of a request. -/
def invalidParams : Int := -32602

/-- The code of an error about a request at the wrong time. -/
def invalidRequest : Int := -32600

/-- The code of an error inside a service. -/
def internalError : Int := -32603

def error (code : Int) (message : String) : Json :=
  .obj [("error", .int code), ("message", .str message)]

def answer : Answer → Json
  | .nothing => .null
  | .completion items => .ofList completionItem items
  | .hover found => hover found
  | .callHelp found => callHelp found
  | .noCall .insideCharacter => error internalError "Internal error"
  | .location found => place found
  | .locations found => .ofList place found
  | .range found => range found
  | .edits found => .obj [("changes", fileEdits found)]
  | .refused cause => error invalidParams cause.message
  | .highlights found => .ofList highlight found
  | .outline found => .ofList outlineNode found
  | .quickFixes u found => .ofList (quickFix u) found
  | .routineSummaries found => .ofList routineSummary found
  | .documentEdits found => .ofList textEdit found
  | .folds found => .ofList fold found
  | .workspaceOutline found => .ofList workspaceEntry found
  | .callItem found => .arr [callItem found]
  | .incoming found => .ofList (callEdge "from") found
  | .outgoing found => .ofList (callEdge "to") found

/-- The answer to a question, an error after the end of the session. -/
def answer? : Option Answer → Json
  | some found => answer found
  | none => error invalidRequest "Invalid request"

def notice : Notice → Json
  | .log message =>
    .obj [("method", .str "window/logMessage"), ("type", .ofNat 3), ("message", .str message)]
  | .diagnostics u found =>
    .obj [("method", .str "textDocument/publishDiagnostics"), ("uri", uri u),
      ("diagnostics", .ofList diagnostic found)]

def offer : Json :=
  .obj [
    ("serverInfo", .obj [("name", .str "krl-lsp"), ("version", .str "0.1.0")]),
    ("capabilities", .obj [
      ("textDocumentSync",
        .obj [("openClose", .bool true), ("change", .ofNat 1), ("save", .bool true)]),
      ("completionProvider", .obj [("triggerCharacters", .arr [.str "."])]),
      ("hoverProvider", .bool true),
      ("signatureHelpProvider", .obj [("triggerCharacters", .arr [.str "(", .str ","])]),
      ("definitionProvider", .bool true),
      ("referencesProvider", .bool true),
      ("renameProvider", .obj [("prepareProvider", .bool true)]),
      ("documentHighlightProvider", .bool true),
      ("documentSymbolProvider", .bool true),
      ("workspaceSymbolProvider", .bool true),
      ("codeActionProvider", .obj [("codeActionKinds", .arr [.str "quickfix"])]),
      ("codeLensProvider", .obj [("resolveProvider", .bool false)]),
      ("documentFormattingProvider", .bool true),
      ("foldingRangeProvider", .bool true),
      ("callHierarchyProvider", .bool true),
      ("workspace", .obj [("workspaceFolders",
        .obj [("supported", .bool true), ("changeNotifications", .bool true)])])])]

end KrlWorkbench.Wire
