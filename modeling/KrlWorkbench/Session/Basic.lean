import KrlWorkbench.Editing.Layout
import KrlWorkbench.Finding.Report

/-!
# Settings

What a user can set, and how it is read.  A section of settings is an object, or an array with the
values of its keys in order.  A value that is missing or null is unset and leaves the default in
place.  A section with any value of a wrong type counts as empty as a whole.
-/

namespace KrlWorkbench

open Text

/-- What the user may choose. -/
structure Settings where
  locale : Locale := .english
  nonAsciiWarnings : Bool := true
  /-- How many milliseconds a document must rest before it is checked. -/
  debounce : Nat := 300
  blankBeforeBlocks : Bool := false
  blankAfterBlocks : Bool := false
  deriving DecidableEq, Repr, Inhabited

namespace Settings

def findingOptions (s : Settings) : Finding.Options :=
  ⟨s.locale, s.nonAsciiWarnings⟩

/-- The options of the layout, for the indentation an editor asks for. -/
def layoutOptions (s : Settings) (tabSize : Nat) (insertSpaces : Bool) : Layout.Options :=
  ⟨tabSize, insertSpaces, s.blankBeforeBlocks, s.blankAfterBlocks⟩

/-! ## Reading -/

/-- The values of some keys of a section. Other keys of an object do not matter; an array may be
shorter than the keys but not longer. -/
def values? (keys : List String) : Json → Option (List (Option Json))
  | .obj entries => some (keys.map fun key => entries.lookup key)
  | .arr items =>
    if items.length ≤ keys.length then
      some (items.map some ++ List.replicate (keys.length - items.length) none)
    else none
  | _ => none

/-- The values of some keys of a section that may be missing. -/
def valuesOf? (keys : List String) : Option Json → Option (List (Option Json))
  | none => some (keys.map fun _ => none)
  | some j => values? keys j

/-- A value that may be unset: the default then, and no settings at all for a wrong type. -/
def setting? {α : Type} (read : Json → Option α) (default : α) : Option Json → Option α
  | none => some default
  | some .null => some default
  | some j => read j

/-- Reads a span of time: an integer of 64 bits without a sign. -/
def milliseconds? (j : Json) : Option Nat :=
  j.int?.bind fun n => if 0 ≤ n ∧ n.toNat < Nat.pow 2 64 then some n.toNat else none

/-- Reads settings; what is left out has its default, what cannot be read spoils all. -/
def ofJson? (j : Json) : Option Settings :=
  let default : Settings := {}
  match values? ["locale", "diagnostics", "formatting"] j with
  | some [locale, diagnostics, formatting] =>
    match valuesOf? ["nonAsciiWarnings", "debounceMs"] diagnostics,
        valuesOf? ["blankLineBeforeBlocks", "blankLineAfterBlocks"] formatting with
    | some [warnings, debounce], some [before, after] => do
      return {
        locale :=
          ← setting? (fun j => j.str?.map fun tag => .ofTag tag.toList) default.locale locale
        nonAsciiWarnings := ← setting? Json.bool? default.nonAsciiWarnings warnings
        debounce := ← setting? milliseconds? default.debounce debounce
        blankBeforeBlocks := ← setting? Json.bool? default.blankBeforeBlocks before
        blankAfterBlocks := ← setting? Json.bool? default.blankAfterBlocks after }
    | _, _ => none
  | _ => none

/-- The settings a section gives; the defaults if it cannot be read. -/
def ofJson (j : Json) : Settings :=
  (ofJson? j).getD {}

end Settings

/-! ## Sessions

A session knows the open documents of an editor, the roots of its workspace and the tables of all
files.  The disk is no part of it: what reads files takes the tree of files.  A scan of the
workspace is a value that is taken at one time and put in place at another, and an open document
always goes before what a scan found. -/

/-- What is known of an editor's workspace. -/
structure Session where
  roots : List Path := []
  documents : UriMap Text := .empty
  store : SymbolStore := {}
  settings : Settings := {}
  /-- How often each open document was changed. -/
  edits : UriMap Nat := .empty

namespace Session

/-! ## Documents -/

def text? (s : Session) (u : Uri) : Option Text :=
  s.documents.get? u

def isOpen (s : Session) (u : Uri) : Bool :=
  (s.text? u).isSome

/-- Takes the text of a document, which is then open. -/
def analyze (s : Session) (u : Uri) (text : Text) : Session :=
  { s with
    store := s.store.replace u (SymbolTable.collect text)
    documents := s.documents.insert u text }

/-- The text of a file that a URI names. -/
def onDisk? (disk : FileNode) (u : Uri) : Option Text :=
  u.toPath?.bind fun path => (disk.read path).toOption

/-- Drops a document; what is on disk counts from then on. -/
def forget (s : Session) (disk : FileNode) (u : Uri) : Session :=
  { s with
    documents := s.documents.erase u
    edits := s.edits.erase u
    store :=
      match onDisk? disk u with
      | some text => s.store.replace u (SymbolTable.collect text)
      | none => s.store.erase u }

def edits? (s : Session) (u : Uri) : Option Nat :=
  s.edits.get? u

def countEdit (s : Session) (u : Uri) : Session :=
  { s with edits := s.edits.insert u ((s.edits? u).getD 0 + 1) }

def diagnostics? (s : Session) (u : Uri) : Option (List Diagnostic) :=
  (s.text? u).map fun text =>
    diagnose text (u.toPath?.any (·.isSystemFile)) s.store.view s.settings.findingOptions

/-- The open documents under what their URIs are read as. -/
def reread (s : Session) : List (Uri × Text) :=
  s.documents.entries.filterMap fun (u, text) => u.reread?.map fun v => (v, text)

/-! ## Roots -/

def addRoot (roots : List Path) (root : Path) : List Path :=
  if roots.contains root then roots else roots ++ [root]

/-- Installs roots. Tables belong to the roots they were found under, so other roots leave those
of the open documents only. -/
def setRoots (s : Session) (roots : List Path) : Session :=
  if roots == s.roots then s
  else
    { s with
      roots := roots
      store := s.reread.foldl
        (fun store (u, text) => store.replace u (SymbolTable.collect text)) s.store.clear }

/-- The roots an editor starts with: a root URI, a root path and folders. -/
def initialRoots (rootUri : Option Uri) (rootPath : Option Text) (folders : List Uri) :
    List Path :=
  let path := (rootPath.filter fun p => !p.isEmpty).map Path.ofText
  ((rootUri.bind Uri.toPath?).toList ++ path.toList ++ folders.filterMap Uri.toPath?).foldl
    addRoot []

/-- Changes the roots by folders that come and go. -/
def changeFolders (s : Session) (added removed : List Uri) : Session :=
  let gone := removed.filterMap Uri.toPath?
  s.setRoots ((added.filterMap Uri.toPath?).foldl addRoot
    (s.roots.filter fun root => !gone.contains root))

/-! ## The workspace on disk -/

/-- The source files under some roots, each once, with their URIs. -/
def diskFiles (disk : FileNode) (roots : List Path) : List (Uri × Path) :=
  (roots.flatMap disk.sourceFiles).eraseDups.filterMap fun path =>
    (Uri.ofPath? path).map fun u => (u, path)

/-- The tables of the files on disk that are not open. -/
def scan (s : Session) (disk : FileNode) : List (Uri × SymbolTable) :=
  ((diskFiles disk s.roots).filter fun f => !s.isOpen f.1).filterMap fun (u, path) =>
    (disk.read path).toOption.map fun text => (u, SymbolTable.collect text)

/-- Puts the result of a scan in place, open documents apart. -/
def applyScan (s : Session) (found : List (Uri × SymbolTable)) : Session :=
  { s with
    store := found.foldl
      (fun store (u, table) => if s.isOpen u then store else store.replace u table) s.store }

/-- Scans, and puts the result in place at once. -/
def rescan (s : Session) (disk : FileNode) : Session :=
  s.applyScan (s.scan disk)

/-- The text of a path: of the open document or else of the file. -/
def read? (s : Session) (disk : FileNode) (path : Path) : Option Text :=
  ((Uri.ofPath? path).bind s.text?).or (disk.read path).toOption

/-- The text of a URI, open or not. -/
def sourceText? (s : Session) (disk : FileNode) (u : Uri) : Option Text :=
  (s.text? u).or (onDisk? disk u)

/-- The open documents in the order of their URIs, then the files that none of these names. -/
def sources (s : Session) (disk : FileNode) : List SourceFile :=
  let buffers := (s.reread.map fun (u, text) => SourceFile.mk u text).mergeSort fun a b =>
    a.uri.le b.uri
  let files := (diskFiles disk s.roots).filter fun f => !buffers.any (·.uri == f.1)
  buffers ++ files.filterMap fun (u, path) =>
    (disk.read path).toOption.map fun text => SourceFile.mk u text

end Session
end KrlWorkbench
