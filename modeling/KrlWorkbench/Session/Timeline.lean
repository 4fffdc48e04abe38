import KrlWorkbench.Editing.QuickFix
import KrlWorkbench.Service.CallGraph
import KrlWorkbench.Service.CallHelp
import KrlWorkbench.Service.Completion
import KrlWorkbench.Service.Definition
import KrlWorkbench.Service.Fold
import KrlWorkbench.Service.Hover
import KrlWorkbench.Service.Occurrence
import KrlWorkbench.Service.Outline
import KrlWorkbench.Session.Basic

/-!
# Questions to a session

Most questions are about an open document; about any other there is nothing to say.
-/

namespace KrlWorkbench

open Text

/-- A question about a position of a document. -/
inductive PointQuery where
  | completion
  | hover
  | callHelp
  | definition
  | references (withDeclaration : Bool)
  | renameRange
  | rename (newName : Text)
  | highlights
  | callItem
  deriving DecidableEq, Repr

/-- A question about a document. -/
inductive DocumentQuery where
  | outline
  | quickFixes (diagnostics : List Diagnostic)
  | routineSummaries
  | layout (tabSize : Nat) (insertSpaces : Bool)
  | folds

/-- What an editor may ask. -/
inductive Query where
  | point (uri : Uri) (position : Position) (query : PointQuery)
  | document (uri : Uri) (query : DocumentQuery)
  | workspaceOutline (query : Text)
  | incoming (name : Text)
  | outgoing (uri : Uri) (name : Text)

/-- What it is answered. -/
inductive Answer where
  | nothing
  | completion (items : List CompletionItem)
  | hover (found : Hover)
  | callHelp (found : CallHelp)
  | noCall (error : CallHelpError)
  | location (found : Location)
  | locations (found : List Location)
  | range (found : Range)
  | edits (found : List (Uri × List TextEdit))
  | refused (cause : Rename.Refusal)
  | highlights (found : List Highlight)
  | outline (found : List OutlineNode)
  | quickFixes (uri : Uri) (found : List QuickFix)
  | routineSummaries (found : List RoutineSummary)
  | documentEdits (found : List TextEdit)
  | folds (found : List FoldRange)
  | workspaceOutline (found : List WorkspaceEntry)
  | callItem (found : CallItem)
  | incoming (found : List CallEdge)
  | outgoing (found : List CallEdge)

namespace Answer

/-- The answer for what may not be found. -/
def ofOption {α : Type} (f : α → Answer) : Option α → Answer
  | some a => f a
  | none => .nothing

end Answer

namespace Session

/-- What a search for definitions may look at. -/
def surroundings (s : Session) (disk : FileNode) : Surroundings :=
  ⟨s.roots, s.store.view, disk.sourceFiles, s.read? disk⟩

def answerPoint (s : Session) (disk : FileNode) (u : Uri) (text : Text) (p : Position) :
    PointQuery → Answer
  | .completion => .completion (complete text p s.store.view)
  | .hover => .ofOption .hover (hover? text p s.store.view)
  | .callHelp =>
    match KrlWorkbench.callHelp text p s.store.view with
    | .ok found => .ofOption .callHelp found
    | .error error => .noCall error
  | .definition => .ofOption .location (definition? text u p (s.surroundings disk))
  | .references withDeclaration =>
    .ofOption (fun name => .locations (references (s.sources disk) name withDeclaration))
      (Rename.nameAt? text p)
  | .renameRange => .ofOption .range (Rename.rangeAt? text p)
  | .rename newName =>
    .ofOption (fun name => .edits (Rename.edits (s.sources disk) name newName))
      (Rename.nameAt? text p)
  | .highlights => .highlights (KrlWorkbench.highlights text p)
  | .callItem => .ofOption .callItem (CallGraph.at? text u p s.store.view)

def answerDocument (s : Session) (disk : FileNode) (u : Uri) (text : Text) :
    DocumentQuery → Answer
  | .outline => .outline (KrlWorkbench.outline text)
  | .quickFixes diagnostics => .quickFixes u (QuickFix.offer text diagnostics)
  | .routineSummaries => .routineSummaries (KrlWorkbench.routineSummaries text (s.sources disk))
  | .layout tabSize insertSpaces =>
    .documentEdits (Layout.formatEdits (s.settings.layoutOptions tabSize insertSpaces) text)
  | .folds => .folds (KrlWorkbench.folds text)

/-- The refusal of a question, before its document is looked at. -/
def refusal? : PointQuery → Option Rename.Refusal
  | .rename newName =>
    match Rename.check newName with
    | .error cause => some cause
    | .ok _ => none
  | _ => none

def answer (s : Session) (disk : FileNode) : Query → Answer
  | .point u p query =>
    match refusal? query with
    | some cause => .refused cause
    | none => .ofOption (fun text => s.answerPoint disk u text p query) (s.text? u)
  | .document u query => .ofOption (fun text => s.answerDocument disk u text query) (s.text? u)
  | .workspaceOutline query => .workspaceOutline (KrlWorkbench.workspaceOutline s.store.view query)
  | .incoming name => .incoming (CallGraph.incoming (s.sources disk) name)
  | .outgoing u name =>
    .ofOption (fun text => .outgoing (CallGraph.outgoing text u name s.store.view))
      (s.sourceText? disk u)

end Session

/-! ## Sessions in time

An edit is followed by a check of the document once it has rested for a while.  Such a check is a
value with the time at which it is due; it is dropped when it is due and the document has been
changed again or closed.  A timeline is a session together with its clock, the checks that wait,
the disk and what the editor has been told. -/

/-- A check of a document that waits. -/
structure Validation where
  uri : Uri
  /-- The number of changes of the document when the check was asked for. -/
  edits : Nat
  due : Nat
  deriving DecidableEq, Repr

/-- Whether a check that is due still counts. -/
def Validation.isCurrent (v : Validation) (s : Session) : Bool :=
  s.edits? v.uri == some v.edits

/-- What the editor is told. -/
inductive Notice where
  | log (message : String)
  | diagnostics (uri : Uri) (found : List Diagnostic)

def Notice.uri? : Notice → Option Uri
  | .log _ => none
  | .diagnostics u _ => some u

/-- Order of notices by document, those about none first. -/
def Notice.le (a b : Notice) : Bool :=
  match a.uri?, b.uri? with
  | none, _ => true
  | some _, none => false
  | some u, some v => u.le v

/-- What the editor tells. -/
inductive Event where
  | opened (uri : Uri) (text : Text)
  /-- The whole text after each of some changes. -/
  | changed (uri : Uri) (texts : List Text)
  | saved (uri : Uri) (text : Option Text)
  | closed (uri : Uri)
  /-- The settings as the editor gives them, if it does. -/
  | configured (settings : Option Json)
  | foldersChanged (added removed : List Uri)

/-- A session with its surroundings. -/
structure Timeline where
  session : Session := {}
  disk : FileNode
  clock : Nat := 0
  waiting : List Validation := []
  isShutDown : Bool := false
  /-- The last diagnostics that were published for each document. -/
  published : UriMap (List Diagnostic) := .empty

namespace Timeline

/-- The notice with the diagnostics of a document, if it is open. -/
def publish (s : Session) (u : Uri) : List Notice :=
  (s.diagnostics? u).toList.map (Notice.diagnostics u)

/-- The diagnostics of all open documents. -/
def publishAll (s : Session) : List Notice :=
  s.reread.flatMap fun d => publish s d.1

/-- Takes the settings an editor gives. Null gives none. -/
def configure (s : Session) : Option Json → Session
  | none => s
  | some .null => s
  | some j => { s with settings := .ofJson j }

/-- Takes a new text of a document and asks for a check. -/
def edit (t : Timeline) (u : Uri) (text : Text) : Timeline :=
  let s := (t.session.analyze u text).countEdit u
  { t with
    session := s
    waiting := t.waiting ++ [⟨u, (s.edits? u).getD 0, t.clock + s.settings.debounce⟩] }

/-- What an event does, and what the editor is told at once. -/
def handle (t : Timeline) : Event → Timeline × List Notice
  | .opened u text => (t.edit u text, [])
  | .changed u texts =>
    match texts.getLast? with
    | some text => (t.edit u text, [])
    | none => (t, [])
  | .saved u text =>
    let s :=
      match text.or (t.session.text? u) with
      | some text => t.session.analyze u text
      | none => t.session
    ({ t with session := s }, publish s u)
  | .closed u => ({ t with session := t.session.forget t.disk u }, [.diagnostics u []])
  | .configured settings =>
    let s := configure t.session settings
    ({ t with session := s }, publishAll s)
  | .foldersChanged added removed =>
    let s := (t.session.changeFolders added removed).rescan t.disk
    ({ t with session := s }, publishAll s)

/-- Lets time pass. Checks that become due before the end are made in the order of their times. -/
def pass (t : Timeline) (duration : Nat) : Timeline × List Notice :=
  let stop := t.clock + duration
  let due := (t.waiting.filter fun v => v.due < stop).mergeSort fun a b => a.due ≤ b.due
  ({ t with clock := stop, waiting := t.waiting.filter fun v => stop ≤ v.due },
    (due.filter (·.isCurrent t.session)).flatMap fun v => publish t.session v.uri)

/-- Takes note of the diagnostics among some notices. -/
def record (t : Timeline) (notices : List Notice) : Timeline :=
  { t with
    published := notices.foldl
      (fun done notice =>
        match notice with
        | .diagnostics u found => done.insert u found
        | .log _ => done) t.published }

/-- Ends a step with what was told in it so far: time passes, and the notices are put in order. -/
def finish (step : Timeline × List Notice) (duration : Nat) : Timeline × List Notice :=
  let (t, later) := step.1.pass duration
  let notices := (step.2 ++ later).mergeSort Notice.le
  (t.record notices, notices)

def stepTime : Nat := 1

/-- Starts a session: roots, then settings, then a scan of the workspace. -/
def start (disk : FileNode) (roots : List Path) (settings : Option Json) :
    Timeline × List Notice :=
  let s := (configure (Session.setRoots {} roots) settings).rescan disk
  finish ({ session := s, disk := disk },
    [.log s!"KRL language server initialized ({s.store.files.size} files indexed)"]) stepTime

/-- A step with an event. After the end of the session events do nothing. -/
def step (t : Timeline) (event : Event) : Timeline × List Notice :=
  finish (if t.isShutDown then (t, []) else t.handle event) stepTime

/-- A step in which only time passes. -/
def wait (t : Timeline) (duration : Nat) : Timeline × List Notice :=
  finish (t, []) duration

/-- A step that changes the disk, of which nobody tells the session. -/
def changeDisk (t : Timeline) (disk : FileNode) : Timeline × List Notice :=
  finish ({ t with disk := disk }, []) stepTime

/-- The end of the session. -/
def shutDown (t : Timeline) : Timeline × List Notice :=
  finish ({ t with isShutDown := true }, []) stepTime

/-- A step with a question, which has no answer after the end of the session. -/
def ask (t : Timeline) (query : Query) : Option Answer × Timeline × List Notice :=
  (if t.isShutDown then none else some (t.session.answer t.disk query), finish (t, []) stepTime)

/-- The diagnostics last published under a URI as it is spelled. -/
def lastPublished (t : Timeline) (spelling : Text) : List Diagnostic :=
  ((t.published.find? spelling).map (·.2)).getD []

end Timeline
end KrlWorkbench
