import KrlWorkbench.File.Tree
import KrlWorkbench.Uri.Authority

/-!
# URIs

A URI is kept in its normal form: scheme and host as they are looked up, points among the path's
segments resolved, and characters that may not stand as they are written as percent escapes.  A
URI with segments and without a foreign host names a path, and every absolute path has a URI of
the scheme `file`.

The text of a URI need not be read back as the same URI: behind a host the path of a file may
start with a drive, which in the text looks like a drive of this host.  `reread?` is what the text
is read as.
-/

namespace KrlWorkbench

open Text

/-- A URI in normal form. -/
structure Uri where
  scheme : Text
  authority : Option Authority
  /-- The path with its escapes; without a leading slash it has no segments. -/
  path : Text
  /-- Query and fragment with the signs that begin them. -/
  tail : Text
  deriving DecidableEq, Repr, Inhabited

namespace Uri

/-- The URI as text. Without an authority a path must not look as if it had one. -/
def text (u : Uri) : Text :=
  let front :=
    match u.authority with
    | some authority => '/' :: '/' :: authority.toText
    | none => if ['/', '/'].isPrefixOf u.path then ['/', '.'] else []
  u.scheme ++ ':' :: front ++ u.path ++ u.tail

/-! ## Reading -/

def endsPath (c : Char) : Bool :=
  c == '?' || c == '#'

/-- Query and fragment in normal form. -/
def normalTail (kind : SchemeKind) (text : Text) : Text :=
  let query :=
    match text.takeWhile (· != '#') with
    | '?' :: rest => '?' :: Escape.encode (Escape.inQuery kind.isSpecial) rest
    | _ => []
  let fragment :=
    match text.dropWhile (· != '#') with
    | '#' :: rest => '#' :: Escape.encode Escape.inFragment rest
    | _ => []
  query ++ fragment

/-- The host of a file, if another one than this is named. -/
def fileHost? (text : Text) : Option (Option Host) :=
  if text.isEmpty then some none
  else (Host.network? text).map fun host => some host |>.filter (· != .name "localhost".toList)

/-- Reads host and path of a file. A drive in the first place is one of this host. -/
def ofFile? (body : Text) : Option (Authority × Text) :=
  let isSlash := SchemeKind.file.isSlash
  let read (start text : Text) : Route := Route.read .file start text
  match body with
  | a :: b :: rest =>
    if isSlash a && isSlash b then
      let hostText := rest.takeWhile fun c => !isSlash c
      let after := rest.dropWhile fun c => !isSlash c
      if Segment.isDrive hostText then some (.empty, (read ['/'] rest).path)
      else do
        match ← fileHost? hostText with
        | none => some (.empty, (read ['/'] after).path)
        | some host =>
          let route := read ['/'] (after.drop 1)
          some (if route.hasDrive then .empty else .ofHost (some host), route.path)
    else some (.empty, (read (if isSlash a then [] else ['/']) body).path)
  | [a] => some (.empty, (read (if isSlash a then [] else ['/']) body).path)
  | [] => some (.empty, ['/'])

/-- Reads authority and path of a service of the network. -/
def ofNetwork? (scheme body : Text) : Option (Authority × Text) := do
  let isSlash := SchemeKind.network.isSlash
  let rest := body.dropWhile isSlash
  let (authority, _) ← Authority.ofText? scheme (rest.takeWhile fun c => !isSlash c)
  let route := Route.read .network ['/'] ((rest.dropWhile fun c => !isSlash c).drop 1)
  some (authority, route.path)

/-- Reads authority and path behind any other scheme. A path that the authority leaves over gets
a slash in front. -/
def ofOther? (scheme body : Text) : Option (Option Authority × Text) :=
  match body with
  | '/' :: '/' :: rest => do
    let (authority, left) ← Authority.ofText? scheme (rest.takeWhile (· != '/'))
    let start := if left.isEmpty then [] else ['/']
    some (some authority, (Route.read .other start (left ++ rest.dropWhile (· != '/'))).path)
  | '/' :: rest => some (none, (Route.read .other ['/'] rest).path)
  | _ => some (none, Escape.encode Escape.always body)

def ofRest? (scheme rest : Text) : Option Uri := do
  let kind := SchemeKind.ofScheme scheme
  let body := rest.takeWhile fun c => !endsPath c
  let tail := normalTail kind (rest.dropWhile fun c => !endsPath c)
  match kind with
  | .file =>
    let (authority, path) ← ofFile? body
    some ⟨scheme, some authority, path, tail⟩
  | .network =>
    let (authority, path) ← ofNetwork? scheme body
    some ⟨scheme, some authority, path, tail⟩
  | .other =>
    let (authority, path) ← ofOther? scheme body
    some ⟨scheme, authority, path, tail⟩

def isSchemeChar (c : Char) : Bool :=
  isLetter c || isDigit c || c == '+' || c == '-' || c == '.'

/-- The URI a text spells. Blanks and control characters around it, and tabs and
line ends in it, do not count. -/
def ofText? (text : Text) : Option Uri :=
  let isEdge (c : Char) : Bool := c.toNat ≤ 32
  let text := (dropEndWhile isEdge (text.dropWhile isEdge)).filter fun c =>
    c != '\t' && c != '\n' && c != '\r'
  let scheme := text.takeWhile isSchemeChar
  match scheme, text.dropWhile isSchemeChar with
  | c :: _, ':' :: rest => if isLetter c then ofRest? (lower scheme) rest else none
  | _, _ => none

/-- What the text of a URI is read as. -/
def reread? (u : Uri) : Option Uri :=
  ofText? u.text

/-! ## Order -/

/-- URIs in the order of their spellings. -/
protected def le (a b : Uri) : Bool :=
  leLists (fun c d => c.toNat ≤ d.toNat) a.text b.text

/-! ## Paths -/

def host? (u : Uri) : Option Host :=
  u.authority.bind (·.host)

/-- Whether no host is named but this one. -/
def isLocal (u : Uri) : Bool :=
  u.host?.all (· == .name "localhost".toList)

/-- A slash behind bytes that end with a drive. -/
def driveSlash (bytes : List UInt8) : List UInt8 :=
  match bytes.reverse with
  | b :: a :: _ :: _ =>
    if Segment.isDrive [Char.ofNat a.toNat, Char.ofNat b.toNat] then [Path.slash] else []
  | _ => []

/-- The path on disk that a URI names, whatever its scheme. -/
def toPath? (u : Uri) : Option Path :=
  if u.path.head? == some '/' && u.isLocal then
    let bytes := Escape.decode u.path
    some ⟨bytes ++ driveSlash bytes⟩
  else none

/-- The URI of an absolute path. -/
def ofPath? (p : Path) : Option Uri :=
  if p.isAbsolute then
    let names := p.names
    let path :=
      if names.isEmpty then ['/']
      else names.flatMap fun name => '/' :: Escape.encodeBytes Escape.inFileName name
    some ⟨"file".toList, some .empty, path, []⟩
  else none

/-- The path that stands for a URI in a search: the file it names, or else its path as written. -/
def searchPath (u : Uri) : Path :=
  u.toPath?.getD (Path.ofText u.path)

/-- The last segment of the path with its escapes, or the whole of a URI without segments. -/
def fileName (u : Uri) : Text :=
  if u.path.head? == some '/' then (u.path.reverse.takeWhile (· != '/')).reverse else u.text

end Uri
end KrlWorkbench
