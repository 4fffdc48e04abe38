import KrlWorkbench.Text.Basic

/-!
# File paths

A path keeps the bytes it is spelled with, which need not be a text.  Two paths are the same if
they have the same names: repeated slashes and inner points do not count, a leading point of a
relative path does, and two points are a name like any other until a file is looked up.

Main definitions: `names`, what a path is compared by; `segments`, what a look-up follows; `child`.
-/

namespace KrlWorkbench

open Text

/-- The name of a file or a directory, in bytes. -/
abbrev FileName := List UInt8

/-- The UTF-8 form of a text. -/
def Text.bytes (text : Text) : List UInt8 :=
  text.flatMap String.utf8EncodeChar

/-- A path as it is spelled. -/
structure Path where
  spelling : List UInt8
  deriving Repr, Inhabited

namespace Path

/-- The byte between names. -/
def slash : UInt8 := 47

/-- The point for the directory itself. -/
def here : FileName := [46]

/-- The two points for the directory above. -/
def above : FileName := [46, 46]

def ofText (text : Text) : Path :=
  ⟨text.bytes⟩

/-- The path as text, empty if its bytes are none. -/
def toText (p : Path) : Text :=
  ((String.fromUTF8? ⟨p.spelling.toArray⟩).getD "").toList

def isAbsolute (p : Path) : Bool :=
  p.spelling.head? == some slash

def segments (p : Path) : List FileName :=
  splitOn (· == slash) p.spelling

/-- The names on the way; a point counts only where a relative path begins with one. -/
def names (p : Path) : List FileName :=
  let names := p.segments.filter fun name => !name.isEmpty
  let leading := if !p.isAbsolute && names.head? == some here then [here] else []
  leading ++ names.filter (· != here)

/-- Paths are the same if they have the same names. -/
instance : BEq Path where
  beq a b := a.isAbsolute == b.isAbsolute && a.names == b.names

@[simp] theorem beq_iff {a b : Path} :
    (a == b) = true ↔ a.isAbsolute = b.isAbsolute ∧ a.names = b.names := by
  change (a.isAbsolute == b.isAbsolute && a.names == b.names) = true ↔ _
  simp

/-- The path of an entry of the directory at a path. -/
def child (p : Path) (name : FileName) : Path :=
  ⟨p.spelling ++ (if p.spelling.getLast? == some slash then [] else [slash]) ++ name⟩

/-- The last name, unless it is a point or two. -/
def fileName? (p : Path) : Option FileName :=
  p.names.getLast?.filter fun name => name != here && name != above

/-! ## Source files and system files -/

/-- A byte with an ASCII letter in upper case. -/
def upperByte (b : UInt8) : UInt8 :=
  if 97 ≤ b && b ≤ 122 then b - 32 else b

/-- Whether a name is a word, up to the case of ASCII letters. -/
def isNamed (name : FileName) (word : String) : Bool :=
  name.map upperByte == (Text.bytes word.toList).map upperByte

/-- The part of a file name after its last point; a name that only begins with a point has
none. -/
def extensionOf (name : FileName) : Option FileName :=
  let back := name.reverse
  match back.dropWhile (· != 46) with
  | [] => none
  | [_] => none
  | _ => some (back.takeWhile (· != 46)).reverse

def sourceExtensions : List String :=
  ["src", "dat", "sub"]

/-- Whether the extension is that of a source file, in either case. -/
def isSourceName (name : FileName) : Bool :=
  (extensionOf name).any fun found => sourceExtensions.any (isNamed found)

def isSourceFile (p : Path) : Bool :=
  p.fileName?.any isSourceName

/-- Directories of the controller's own files. -/
def systemDirectories : List String :=
  ["System", "TP", "Mada", "Steu"]

/-- Whether the path names one of the controller's own files. -/
def isSystemFile (p : Path) : Bool :=
  p.names.any (fun name => systemDirectories.any (isNamed name))
    || p.fileName?.any fun name => name.head? == some 36

/-- Whether the path is relative and never climbs. -/
def isSafe (p : Path) : Bool :=
  !p.isAbsolute && !p.names.isEmpty && !p.names.contains above

/-! ## Order -/

/-- Paths of one kind, name by name and each name byte by byte, a directory before what is in it. -/
protected def le (a b : Path) : Bool :=
  leLists (leLists fun c d => c.toNat ≤ d.toNat) a.names b.names

end Path

/-! ## A tree of files

Directories hold named entries, files hold text or bytes that are no text.  Reading a file can
fail in four ways.  `sourceFiles` finds the source files below a directory; hidden directories
and those that hold dependencies or build results are not entered, whatever the directory itself
is called. -/

/-- A tree of files. -/
inductive FileNode where
  /-- A file, without text if its bytes are not UTF-8. -/
  | file (content : Option Text)
  | directory (entries : List (FileName × FileNode))
  deriving Inhabited

/-- Why a file has no text. -/
inductive ReadError where
  | notFound
  | notDirectory
  | isDirectory
  | notText
  deriving DecidableEq, Repr, Inhabited

/-- The error as the operating system words it. -/
def ReadError.message : ReadError → String
  | .notFound => "No such file or directory (os error 2)"
  | .notDirectory => "Not a directory (os error 20)"
  | .isDirectory => "Is a directory (os error 21)"
  | .notText => "stream did not contain valid UTF-8"

namespace FileNode

def empty : FileNode :=
  .directory []

/-! ## Looking up -/

/-- Follows names downward; `trail` holds the directories passed, nearest first, for two points
to go back to. Nothing between two slashes, or a point, stays in a directory. -/
def follow (trail : List FileNode) (node : FileNode) : List FileName → Except ReadError FileNode
  | [] => .ok node
  | name :: rest =>
    match node with
    | .file _ => .error .notDirectory
    | .directory entries =>
      if name.isEmpty || name == Path.here then follow trail node rest
      else if name == Path.above then
        match trail with
        | up :: trail => follow trail up rest
        | [] => follow [] node rest
      else
        match entries.lookup name with
        | some next => follow (node :: trail) next rest
        | none => .error .notFound

/-- The node under a path, seen from the top of the tree. Relative paths name nothing here. -/
def find (root : FileNode) (p : Path) : Except ReadError FileNode :=
  if p.isAbsolute then follow [] root p.segments else .error .notFound

def text : FileNode → Except ReadError Text
  | .directory _ => .error .isDirectory
  | .file none => .error .notText
  | .file (some content) => .ok content

def read (root : FileNode) (p : Path) : Except ReadError Text := do
  (← root.find p).text

/-! ## Changing -/

/-- Puts a node under a name of a directory's entries. -/
def putEntry (name : FileName) (node : FileNode) :
    List (FileName × FileNode) → List (FileName × FileNode)
  | [] => [(name, node)]
  | entry :: rest =>
    if entry.1 == name then (name, node) :: rest else entry :: putEntry name node rest

/-- Puts a node under a path; directories on the way come into being, files on the way give
way. -/
def put (root node : FileNode) : List FileName → FileNode
  | [] => node
  | name :: rest =>
    match root with
    | .directory entries =>
      .directory (putEntry name (put ((entries.lookup name).getD empty) node rest) entries)
    | .file _ => .directory [(name, put empty node rest)]

/-- Takes away what is under a path, if anything is. -/
def erase (root : FileNode) : List FileName → FileNode
  | [] => root
  | [name] =>
    match root with
    | .directory entries => .directory (entries.filter (·.1 != name))
    | .file content => .file content
  | name :: rest =>
    match root with
    | .directory entries =>
      match entries.lookup name with
      | some next => .directory (putEntry name (erase next rest) entries)
      | none => .directory entries
    | .file content => .file content

/-! ## Finding source files -/

/-- Directories with dependencies or build results. -/
def skippedDirectories : List FileName :=
  ["node_modules", "target", "out", "dist"].map fun name => Text.bytes name.toList

/-- Whether a directory with this name, below the top, is not entered. -/
def isSkipped (name : FileName) : Bool :=
  name.head? == some 46 || skippedDirectories.contains name

mutual

/-- The source files at a path, where `node` is found. -/
def sourceFilesAt (p : Path) : FileNode → List Path
  | .file _ => if p.isSourceFile then [p] else []
  | .directory entries => sourceFilesIn p entries

/-- The source files among the entries of the directory at a path. -/
def sourceFilesIn (p : Path) : List (FileName × FileNode) → List Path
  | [] => []
  | (name, node) :: rest =>
    (match node with
      | .directory entries => if isSkipped name then [] else sourceFilesIn (p.child name) entries
      | .file _ => if (p.child name).isSourceFile then [p.child name] else []) ++
      sourceFilesIn p rest

end

/-- The source files under a path, in order. -/
def sourceFiles (root : FileNode) (p : Path) : List Path :=
  match root.find p with
  | .ok node => (sourceFilesAt p node).mergeSort Path.le
  | .error _ => []

end FileNode
end KrlWorkbench
