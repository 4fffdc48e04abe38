import KrlWorkbench.Editing.Layout
import KrlWorkbench.Wire.Service

/-!
# The command line

Checking or formatting a single file.  Only relative paths that never climb are taken.
-/

namespace KrlWorkbench

open Text

/-- What is done with a file named on the command line. -/
inductive Task where
  | check
  | format
  deriving DecidableEq, Repr

/-- What the arguments ask for. -/
inductive Command where
  /-- No arguments: a session with an editor. -/
  | serve
  /-- A task with the path of a file as it was typed. -/
  | run (task : Task) (file : Text)
  deriving DecidableEq, Repr

/-- Why the arguments, or the file they name, are refused. -/
inductive CommandError where
  | missingFile (flag : Text)
  | unsafePath (file : Text)
  | unknownArgument (flag : Text)
  | extraArguments (file : Text)
  | unreadable (file : Text) (cause : ReadError)
  deriving DecidableEq, Repr

def CommandError.message : CommandError → String
  | .missingFile flag => s!"{String.ofList flag} expects a file argument"
  | .unsafePath file =>
    s!"refusing path '{String.ofList file}': use a relative path without '..'"
  | .unknownArgument flag =>
    s!"unknown argument '{String.ofList flag}' (expected --check <file> or --format <file>)"
  | .extraArguments file => s!"unexpected extra arguments after '{String.ofList file}'"
  | .unreadable file cause => s!"failed to read {String.ofList file}: {cause.message}"

namespace Command

def task? (flag : Text) : Option Task :=
  if flag == "--check".toList then some .check
  else if flag == "--format".toList then some .format
  else none

/-- Reads the arguments. The flag is judged first, then the path, then what follows it. -/
def ofArguments : List Text → Except CommandError Command
  | [] => .ok .serve
  | flag :: rest =>
    match task? flag with
    | none => .error (.unknownArgument flag)
    | some task =>
      match rest with
      | [] => .error (.missingFile flag)
      | file :: more =>
        if !(Path.ofText file).isSafe then .error (.unsafePath file)
        else if !more.isEmpty then .error (.extraArguments file)
        else .ok (.run task file)

end Command

namespace Task

/-- The diagnostics of a file that is a workspace of its own. -/
def diagnostics (file text : Text) : List Diagnostic :=
  let path := Path.ofText file
  let uri := (Uri.ofPath? ((Path.ofText ['/']).child file.bytes)).getD default
  let view := (SymbolStore.replace {} uri (SymbolTable.collect text)).view
  diagnose text path.isSystemFile view ⟨.english, true⟩

/-- What a task prints. -/
def output (task : Task) (file text : Text) : Text :=
  match task with
  | .check => ((Json.ofList Wire.diagnostic (diagnostics file text)).pretty ++ "\n").toList
  | .format => Layout.format {} text

end Task

/-- Runs a task on a file of a tree. -/
def Task.runIn (task : Task) (root : FileNode) (directory : Path) (file : Text) :
    Except CommandError Text :=
  match root.read (directory.child file.bytes) with
  | .error cause => .error (.unreadable file cause)
  | .ok text => .ok (task.output file text)

end KrlWorkbench
