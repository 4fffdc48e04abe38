import KrlWorkbench.Uri.Host

/-!
# Who is asked, and where

Behind two slashes a URI names a host, before it perhaps a user with a password, behind it perhaps
the number of a service.
-/

namespace KrlWorkbench

open Text

/-- Kinds of schemes, which differ in how hosts and paths are read. -/
inductive SchemeKind where
  /-- Files, on this host unless another one is named. -/
  | file
  /-- Services of the network, which always have a host. -/
  | network
  | other
  deriving DecidableEq, Repr, Inhabited

namespace SchemeKind

/-- The kind of a scheme in small letters. -/
def ofScheme (scheme : Text) : SchemeKind :=
  match String.ofList scheme with
  | "file" => .file
  | "http" | "https" | "ws" | "wss" | "ftp" => .network
  | _ => .other

/-- Whether paths always have segments, which a backslash divides too. -/
def isSpecial (kind : SchemeKind) : Bool :=
  kind != .other

def isSlash (kind : SchemeKind) (c : Char) : Bool :=
  c == '/' || (kind.isSpecial && c == '\\')

end SchemeKind

/-- The number of the service a scheme uses when none is given. -/
def defaultService? (scheme : Text) : Option Nat :=
  match String.ofList scheme with
  | "http" | "ws" => some 80
  | "https" | "wss" => some 443
  | "ftp" => some 21
  | _ => none

/-- User, password, host and service of a URI. -/
structure Authority where
  /-- The user with escapes. -/
  user : Text
  /-- The password with escapes. -/
  password : Text
  host : Option Host
  service : Option Nat
  deriving DecidableEq, Repr, Inhabited

namespace Authority

def empty : Authority :=
  ⟨[], [], none, none⟩

def ofHost (host : Option Host) : Authority :=
  { empty with host }

/-- User and password with the sign behind them. -/
def userText (a : Authority) : Text :=
  let password := if a.password.isEmpty then [] else ':' :: a.password
  if a.user.isEmpty && password.isEmpty then [] else a.user ++ password ++ ['@']

def toText (a : Authority) : Text :=
  let host := (a.host.map Host.toText).getD []
  let service := (a.service.map fun n => ':' :: decimal n).getD []
  a.userText ++ host ++ service

/-- Cuts at the first colon outside square brackets. -/
def cutAtColon (inBrackets : Bool) : Text → Text × Text
  | [] => ([], [])
  | c :: rest =>
    if c == ':' && !inBrackets then ([], c :: rest)
    else
      let cut := cutAtColon (c == '[' || (inBrackets && c != ']')) rest
      (c :: cut.1, cut.2)

/-- The service behind a host, and what is left of the text: a colon and perhaps a number, which
must fit in 16 bits. The scheme's own number is left out. A backslash ends the number, also where
it divides nothing. -/
def service? (scheme text : Text) : Option (Option Nat × Text) :=
  match text with
  | [] => some (none, [])
  | _ :: rest =>
    let digits := rest.takeWhile isDigit
    let left := rest.dropWhile isDigit
    let n := decimalNumber digits
    if !left.head?.all (· == '\\') || 65535 < n then none
    else if digits.isEmpty || defaultService? scheme == some n then some (none, left)
    else some (some n, left)

/-- Cuts behind the last `@`. -/
def cutAtUser (text : Text) : Text × Text :=
  let back := text.reverse
  ((back.dropWhile (· != '@')).reverse.dropLast, (back.takeWhile (· != '@')).reverse)

/-- The authority a text spells, and what is left of the text. -/
def ofText? (scheme text : Text) : Option (Authority × Text) := do
  let kind := SchemeKind.ofScheme scheme
  let (who, place) := cutAtUser text
  let user := Escape.encode Escape.inUser (who.takeWhile (· != ':'))
  let password := Escape.encode Escape.inUser ((who.dropWhile (· != ':')).drop 1)
  let (hostText, serviceText) := cutAtColon false place
  let (service, left) ← service? scheme serviceText
  if hostText.isEmpty then
    if kind.isSpecial || !serviceText.isEmpty || !user.isEmpty || !password.isEmpty then none
    else some (empty, left)
  else
    let host ← if kind.isSpecial then Host.network? hostText else Host.asWritten? hostText
    some (⟨user, password, some host, service⟩, left)

end Authority

/-! ## Paths of URIs

A path grows segment by segment.  One point adds nothing, two points take a segment away, and the
letter of a drive is never taken away.  The path of a file has exactly one slash in front, and a
drive in its first place is written with a colon. -/

namespace Segment

/-- Whether a segment means the directory itself. -/
def isSingleDot (segment : Text) : Bool :=
  let s := lower segment
  s == ".".toList || s == "%2e".toList

/-- Whether a segment means the directory above. -/
def isDoubleDot (segment : Text) : Bool :=
  let s := lower segment
  s == "..".toList || s == ".%2e".toList || s == "%2e.".toList || s == "%2e%2e".toList

/-- A letter and a colon or a bar. -/
def isDrive : Text → Bool
  | [c, d] => isLetter c && (d == ':' || d == '|')
  | _ => false

/-- A letter and a colon. -/
def isPlainDrive : Text → Bool
  | [c, d] => isLetter c && d == ':'
  | _ => false

/-- Whether a segment is a drive, or a drive with a backslash behind it. -/
def startsWithDrive : Text → Bool
  | c :: d :: rest => isDrive [c, d] && rest.head?.all (· == '\\')
  | _ => false

end Segment

/-- The path of a URI while it is read. -/
structure Route where
  path : Text
  /-- A drive has been read in the first place. -/
  hasDrive : Bool
  deriving DecidableEq, Repr, Inhabited

namespace Route

def endsWithSlash (path : Text) : Bool :=
  path.getLast? == some '/'

/-- The path up to its last slash, and what follows. -/
def cutAtLastSlash (path : Text) : Text × Text :=
  let back := path.reverse
  ((back.dropWhile (· != '/')).reverse, (back.takeWhile (· != '/')).reverse)

/-- Whether the slash at the end may go: there is a segment in front of it, and that is no
drive. -/
def canDropSlash (path : Text) : Bool :=
  let (front, last) := cutAtLastSlash path.dropLast
  !front.isEmpty && !Segment.startsWithDrive last

/-- The path one segment up; a drive stays. -/
def climb (kind : SchemeKind) (path : Text) : Text :=
  let path := if endsWithSlash path && canDropSlash path then path.dropLast else path
  let (front, last) := cutAtLastSlash path
  if kind == .file && Segment.isPlainDrive last then path else front

def closed (path : Text) : Text :=
  if endsWithSlash path then path else path ++ ['/']

/-- Adds a segment, `isLast` if no slash follows it. -/
def add (kind : SchemeKind) (route : Route) (segment : Text) (isLast : Bool) : Route :=
  let slash := if isLast then [] else ['/']
  if Segment.isDoubleDot segment then
    let path := climb kind route.path
    { route with path := if isLast then path else closed path }
  else if Segment.isSingleDot segment then { route with path := closed route.path }
  else if kind == .file && route.path.length == 1 && Segment.isDrive segment then
    ⟨route.path ++ segment.take 1 ++ ':' :: slash, true⟩
  else { route with path := route.path ++ segment ++ slash }

/-- Adds segments with slashes between them. -/
def addAll (kind : SchemeKind) (route : Route) : List Text → Route
  | [] => route
  | [segment] => route.add kind segment true
  | segment :: rest => (route.add kind segment false).addAll kind rest

/-- Reads a path behind what is already there. -/
def read (kind : SchemeKind) (start text : Text) : Route :=
  let segments := (splitOn kind.isSlash text).map (Escape.encode Escape.inPath)
  let route := addAll kind ⟨start, false⟩ segments
  if kind == .file then { route with path := '/' :: route.path.dropWhile (· == '/') } else route

end Route
end KrlWorkbench
